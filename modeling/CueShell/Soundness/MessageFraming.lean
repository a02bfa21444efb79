import CueShell.Model.Framing
import Mathlib.Data.List.Forall2

/-! # What is framed is read back, up to a size

The sender casts the length of a body to 32 bits and knows no limit; both readers refuse bodies beyond
16 MiB. So a sequence of messages is read back if and only if all its bodies keep to the limit.
-/

namespace CueShell

open ByteStream

variable {Message : Type} {codec : Codec Message} {errors : ReadErrors}

section Frame

variable {message : Message} {body rest : List UInt8} {stream : List Piece}

/-- The length in front of a body, as a reader sees it. -/
theorem length_of_frame (bytes : content stream = frame body ++ rest) :
    ∃ left, readExact 4 stream = some (toBeBytes (.ofNat body.length), left) ∧
      content left = body ++ rest ∧
      (fromBeBytes (toBeBytes (.ofNat body.length))).toNat = body.length % 2 ^ 32 := by
  rw [frame, List.append_assoc] at bytes
  obtain ⟨left, filled, remains⟩ := readExact_append bytes
  refine ⟨left, filled, remains, ?_⟩
  rw [fromBeBytes_toBeBytes, UInt32.toNat_ofNat']

/-- A body within the limit is read as what it decodes to. -/
theorem readFrame_frame (small : body.length ≤ maxMessageSize)
    (decoded : codec.fromSlice body = .ok message) (bytes : content stream = frame body ++ rest) :
    ∃ left, readFrame codec errors stream = .ok (message, left) ∧ content left = rest := by
  obtain ⟨behind, header, remains, len⟩ := length_of_frame bytes
  have exactly : body.length % 2 ^ 32 = body.length := by
    apply Nat.mod_eq_of_lt
    unfold maxMessageSize at small
    omega
  rw [exactly] at len
  obtain ⟨left, filled, after⟩ := readExact_append remains
  refine ⟨left, ?_, after⟩
  simp only [readFrame, header, len, if_neg (Nat.not_lt.mpr small), filled, decoded]

/-- A body beyond the limit is refused, or cut short where its length has wrapped around. -/
theorem readFrame_large (lawful : codec.Lawful) (encoded : codec.toVec message = .ok body)
    (large : maxMessageSize < body.length) (bytes : content stream = frame body ++ rest) :
    ∃ error, readFrame codec errors stream = .error error := by
  obtain ⟨behind, header, remains, len⟩ := length_of_frame bytes
  by_cases refused : body.length % 2 ^ 32 > maxMessageSize
  · refine ⟨errors.tooLarge (fromBeBytes (toBeBytes (.ofNat body.length))), ?_⟩
    simp only [readFrame, header, len, if_pos refused]
  · have fewer : body.length % 2 ^ 32 < body.length := by omega
    have size : (body.take (body.length % 2 ^ 32)).length = body.length % 2 ^ 32 := by
      rw [List.length_take]
      omega
    rw [← List.take_append_drop (body.length % 2 ^ 32) body, List.append_assoc] at remains
    obtain ⟨left, filled, -⟩ := readExact_append remains
    rw [size] at filled
    have part : body.take (body.length % 2 ^ 32) ≠ body := by
      intro same
      rw [same] at size
      omega
    obtain ⟨error, failed⟩ := lawful.whole message body _ encoded (List.take_prefix ..) part
    refine ⟨"deserialize message: " ++ error, ?_⟩
    simp only [readFrame, header, len, if_neg refused, filled, failed]

end Frame

section Sequence

variable {messages : List Message} {bodies : List (List UInt8)} {stream : List Piece}

/-- The bodies of messages. -/
abbrev Codec.Bodies (codec : Codec Message) : List Message → List (List UInt8) → Prop :=
  List.Forall₂ fun message body => codec.toVec message = .ok body

theorem Codec.body_unique (codec : Codec Message) :
    Relator.RightUnique fun message body => codec.toVec message = .ok body := by
  intro message body other first second
  exact Except.ok.inj (first.symm.trans second)

/-- Frames within the limit are read one after another. -/
theorem readLoop_frames (lawful : codec.Lawful) (encoded : codec.Bodies messages bodies)
    (small : ∀ body ∈ bodies, body.length ≤ maxMessageSize) {rest : List UInt8} (rounds : ℕ)
    (bytes : content stream = (bodies.map frame).flatten ++ rest) :
    ∃ left, content left = rest ∧ readLoop (readFrame codec errors) (rounds + messages.length) stream =
      (readLoop (readFrame codec errors) rounds left).map fun (others, error) =>
        (messages ++ others, error) := by
  induction encoded generalizing stream with
  | nil => exact ⟨stream, bytes, by simp⟩
  | @cons message body messages bodies first others ih =>
    rw [List.map_cons, List.flatten_cons, List.append_assoc] at bytes
    obtain ⟨behind, got, remains⟩ := @readFrame_frame _ _ errors _ _ _ _
      (small body (List.mem_cons_self ..)) (lawful.decodes message body first) bytes
    obtain ⟨left, after, loop⟩ :=
      ih (fun other member => small other (List.mem_cons_of_mem _ member)) remains
    refine ⟨left, after, ?_⟩
    rw [List.length_cons, ← Nat.add_assoc, readLoop, got]
    simp only [loop, Option.map_map]
    rfl

theorem length_le_frames (encoded : codec.Bodies messages bodies) :
    messages.length ≤ (bodies.map frame).flatten.length := by
  induction encoded with
  | nil => exact Nat.le_refl 0
  | cons first others ih =>
    simp only [List.length_cons, List.map_cons, List.flatten_cons, List.length_append, frame,
      toBeBytes_length]
    omega

/-- All bodies keep to the limit, and the stream ends behind them. -/
theorem readAll_small (lawful : codec.Lawful) (encoded : codec.Bodies messages bodies)
    (small : ∀ body ∈ bodies, body.length ≤ maxMessageSize)
    (bytes : content stream = (bodies.map frame).flatten) :
    readAll (readFrame codec errors) stream = some (messages, "read length prefix") := by
  have enough := length_le_frames encoded
  rw [← bytes] at enough
  obtain ⟨rounds, total⟩ := Nat.exists_eq_add_of_le enough
  obtain ⟨left, ended, loop⟩ :=
    @readLoop_frames _ _ errors _ _ _ lawful encoded small [] (rounds + 1) (by rw [bytes, List.append_nil])
  have count : (content stream).length + 1 = rounds + 1 + messages.length := by omega
  rw [readAll, count, loop, content_eq_nil ended]
  simp [readLoop, readFrame, readExact]

/-- With a body beyond the limit, something else than the sequence is read, if anything. -/
theorem readLoop_large (lawful : codec.Lawful) (encoded : codec.Bodies messages bodies)
    (large : ∃ body ∈ bodies, maxMessageSize < body.length) (rounds : ℕ)
    (bytes : content stream = (bodies.map frame).flatten) :
    (readLoop (readFrame codec errors) rounds stream).map Prod.fst ≠ some messages := by
  induction encoded generalizing stream rounds with
  | nil => simp at large
  | @cons message body messages bodies first others ih =>
    cases rounds with
    | zero => simp [readLoop]
    | succ rounds =>
      rw [List.map_cons, List.flatten_cons] at bytes
      rw [readLoop]
      rcases Nat.lt_or_ge maxMessageSize body.length with beyond | within
      · obtain ⟨error, failed⟩ := @readFrame_large _ _ errors _ _ _ _ lawful first beyond bytes
        simp [failed]
      · obtain ⟨left, got, remains⟩ := @readFrame_frame _ _ errors _ _ _ _ within
          (lawful.decodes message body first) bytes
        have later : ∃ other ∈ bodies, maxMessageSize < other.length := by
          obtain ⟨other, member, beyond⟩ := large
          rcases List.mem_cons.mp member with rfl | member
          · exact absurd beyond (Nat.not_lt.mpr within)
          · exact ⟨other, member, beyond⟩
        have differs := ih later rounds remains
        simp only [got, Option.map_map]
        intro same
        obtain ⟨⟨rest, error⟩, loop, equal⟩ := Option.map_eq_some_iff.mp same
        refine differs ?_
        rw [loop]
        cases equal
        rfl

end Sequence

/-- However the frames of a sequence are cut into reads, both readers hand out the sequence. -/
def Codec.Delivers (codec : Codec Message) (messages : List Message) : Prop :=
  ∀ frames stream,
    List.Forall₂ (fun message bytes => encodeMessage codec message = .ok bytes) messages frames →
    content stream = frames.flatten →
    (readAll (Gateway.readMessage codec) stream).map Prod.fst = some messages ∧
      (readAll (Client.readMessage codec) stream).map Prod.fst = some messages

theorem encodeMessage_ok {message : Message} {bytes : List UInt8} :
    encodeMessage codec message = .ok bytes ↔
      ∃ body, codec.toVec message = .ok body ∧ bytes = frame body := by
  unfold encodeMessage
  cases codec.toVec message with
  | error error => simp [bind, Except.bind]
  | ok body => simp [bind, Except.bind, pure, Except.pure, eq_comm]

theorem frames_of_encode {messages : List Message} {frames : List (List UInt8)}
    (encoded : List.Forall₂ (fun message bytes => encodeMessage codec message = .ok bytes)
      messages frames) :
    ∃ bodies, codec.Bodies messages bodies ∧ frames = bodies.map frame := by
  induction encoded with
  | nil => exact ⟨[], .nil, rfl⟩
  | cons first others ih =>
    obtain ⟨bodies, rest, rfl⟩ := ih
    obtain ⟨body, encoded, rfl⟩ := encodeMessage_ok.mp first
    exact ⟨body :: bodies, .cons encoded rest, rfl⟩

theorem encode_of_bodies {messages : List Message} {bodies : List (List UInt8)}
    (encoded : codec.Bodies messages bodies) :
    List.Forall₂ (fun message bytes => encodeMessage codec message = .ok bytes)
      messages (bodies.map frame) := by
  induction encoded with
  | nil => exact .nil
  | cons first others ih => exact .cons (encodeMessage_ok.mpr ⟨_, first, rfl⟩) ih

/-- A sequence of messages is read back if and only if no body exceeds the limit. -/
theorem delivers_iff_small (lawful : codec.Lawful) {messages : List Message}
    {bodies : List (List UInt8)} (encoded : codec.Bodies messages bodies) :
    codec.Delivers messages ↔ ∀ body ∈ bodies, body.length ≤ maxMessageSize := by
  constructor
  · intro delivers
    by_contra some_large
    have large : ∃ body ∈ bodies, maxMessageSize < body.length := by
      simpa only [not_forall, exists_prop, Nat.not_le] using some_large
    have arrived := content_whole (bodies.map frame).flatten
    exact readLoop_large lawful encoded large _ arrived
      (delivers _ _ (encode_of_bodies encoded) arrived).1
  · intro small frames stream framed bytes
    obtain ⟨others, again, rfl⟩ := frames_of_encode framed
    obtain rfl : others = bodies := List.right_unique_forall₂' codec.body_unique again encoded
    constructor
    · exact congrArg (Option.map Prod.fst) (readAll_small lawful encoded small bytes)
    · exact congrArg (Option.map Prod.fst) (readAll_small lawful encoded small bytes)

/-- The JSON of a request with a number of letters as its input. -/
def evalRequest (letters : ℕ) : List UInt8 :=
  bytesOf "\x7b\"type\":\"request\",\"id\":1,\"payload\":\x7b\"Eval\":\x7b\"input\":\"" ++
    (List.replicate letters 97 ++ bytesOf "\",\"mode\":\"Job\"\x7d\x7d\x7d")
where
  bytesOf (text : String) : List UInt8 := text.toList.map fun letter => .ofNat letter.toNat

/-- The part of the JSON codec that handles such requests. -/
def evalCodec : Codec ℕ where
  toVec letters := .ok (evalRequest letters)
  fromSlice body :=
    let letters := body.length - (evalRequest 0).length
    if body = evalRequest letters then .ok letters else .error "expected value"

theorem evalRequest_length (letters : ℕ) :
    (evalRequest letters).length = letters + (evalRequest 0).length := by
  simp only [evalRequest, List.length_append, List.length_replicate]
  omega

theorem evalCodec_lawful : evalCodec.Lawful where
  decodes letters body encoded := by
    obtain rfl : evalRequest letters = body := Except.ok.inj encoded
    have count : (evalRequest letters).length - (evalRequest 0).length = letters := by
      rw [evalRequest_length letters, Nat.add_sub_cancel]
    simp only [evalCodec, count, if_true]
  whole letters body part encoded shorter differs := by
    obtain rfl : evalRequest letters = body := Except.ok.inj encoded
    refine ⟨"expected value", if_neg fun same => ?_⟩
    generalize part.length - (evalRequest 0).length = fewer at same
    subst same
    have less : fewer < letters := by
      have bound := shorter.length_le
      rw [evalRequest_length, evalRequest_length letters] at bound
      refine Nat.lt_of_le_of_ne (by omega) fun equal => differs (by rw [equal])
    -- Behind the letters of the shorter text stands a quote, in the longer one another letter.
    obtain ⟨more, rfl⟩ := Nat.exists_eq_add_of_lt less
    have longer : List.replicate (fewer + more + 1) (97 : UInt8) =
        List.replicate fewer 97 ++ 97 :: List.replicate more 97 := by
      rw [Nat.add_assoc, List.replicate_add]
      rfl
    unfold evalRequest at shorter
    rw [List.prefix_append_right_inj, longer, List.append_assoc, List.prefix_append_right_inj] at shorter
    obtain ⟨rest, equal⟩ := shorter
    simp [evalRequest.bytesOf] at equal

theorem delivers_iff_small_short :
    evalCodec.Delivers [2, 0] ↔ ∀ body ∈ [evalRequest 2, evalRequest 0], body.length ≤ maxMessageSize :=
  delivers_iff_small evalCodec_lawful (.cons rfl (.cons rfl .nil))

/-- A request of more than 16 MiB is encoded and not read. -/
theorem not_delivers_large : evalCodec.Lawful ∧ ¬ evalCodec.Delivers [16 * 1024 * 1024] := by
  refine ⟨evalCodec_lawful, fun delivers => ?_⟩
  have encoded : evalCodec.Bodies [16 * 1024 * 1024] [evalRequest (16 * 1024 * 1024)] :=
    .cons rfl .nil
  have large : ∃ body ∈ [evalRequest (16 * 1024 * 1024)], maxMessageSize < body.length := by
    refine ⟨_, List.mem_singleton.mpr rfl, ?_⟩
    rw [evalRequest_length, maxMessageSize]
    exact Nat.lt_add_of_pos_right (by decide)
  have arrived := content_whole ([evalRequest (16 * 1024 * 1024)].map frame).flatten
  exact readLoop_large evalCodec_lawful encoded large _ arrived
    (delivers _ _ (encode_of_bodies encoded) arrived).1

end CueShell
