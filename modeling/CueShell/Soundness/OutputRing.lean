import CueShell.Proofs.RingContents
import Mathlib.Data.List.DropRight

/-! # The output ring buffer keeps the end of the output

For every capacity and every sequence of pushes the buffer returns the last bytes of all that was pushed,
says whether older ones are missing, and never leaves its array.
-/

namespace CueShell.RingBuffer

variable {ring : RingBuffer} {stream bytes : List UInt8}

/-- The buffer holds the end of a stream and knows whether bytes of it are gone. Without room it
holds nothing. -/
structure Records (ring : RingBuffer) (stream : List UInt8) : Prop where
  contents : ring.Holds stream ∨ (ring.capacity = 0 ∧ ring.len = 0)
  flag : ring.overflowed = decide (ring.capacity < stream.length)

theorem records_new (capacity : ℕ) : (new capacity).Records [] where
  contents := by
    rcases Nat.eq_zero_or_pos capacity with none | positive
    · exact .inr ⟨none, rfl⟩
    · exact .inl (holds_new positive)
  flag := by simp [new]

theorem Records.len (records : ring.Records stream) : ring.len = min stream.length ring.capacity := by
  rcases records.contents with holds | ⟨none, empty⟩
  · exact holds.len
  · rw [none, empty, Nat.min_zero]

theorem Records.asBytes (records : ring.Records stream) :
    ring.asBytes = stream.rtake ring.capacity := by
  rcases records.contents with holds | ⟨none, empty⟩
  · rw [holds.bytes, holds.len, List.rtake]
    congr 1
    omega
  · rw [RingBuffer.asBytes, none, empty, List.rtake, Nat.sub_zero, List.drop_length]
    rfl

theorem overflowed_pushBytes (bytes : List UInt8) (ring : RingBuffer) :
    (bytes.foldl RingBuffer.pushByte ring).overflowed = ring.overflowed := by
  induction bytes generalizing ring with
  | nil => rfl
  | cons byte bytes ih => exact ih _

theorem Sound.overflowed_push (sound : ring.Sound) (bytes : List UInt8) :
    (ring.push bytes).overflowed = (ring.overflowed || decide (ring.capacity < ring.len + bytes.length)) := by
  rw [RingBuffer.push, if_neg (Nat.pos_iff_ne_zero.mp sound.positive)]
  by_cases none : bytes = []
  · rw [if_pos none, none, List.length_nil, Nat.add_zero, decide_eq_false (Nat.not_lt.mpr sound.len),
      Bool.or_false]
  · rw [if_neg none]
    exact overflowed_pushBytes ..

section Checks

theorem Sound.pushByteChecked (sound : ring.Sound) (byte : UInt8) :
    ring.pushByteChecked byte = some (ring.pushByte byte) := by
  have inside : ring.head < ring.data.length ∧ ring.capacity ≠ 0 :=
    ⟨sound.size ▸ sound.head, Nat.pos_iff_ne_zero.mp sound.positive⟩
  rw [RingBuffer.pushByteChecked, if_pos inside]

theorem Sound.pushBytesChecked (sound : ring.Sound) (bytes : List UInt8) :
    bytes.foldlM RingBuffer.pushByteChecked ring = some (bytes.foldl RingBuffer.pushByte ring) := by
  induction bytes generalizing ring with
  | nil => rfl
  | cons byte bytes ih =>
    rw [List.foldlM_cons, sound.pushByteChecked byte]
    exact ih (sound.pushByte byte)

theorem sourceChecked_eq (ring : RingBuffer) (bytes : List UInt8) : ring.sourceChecked bytes =
    some (if ring.capacity < bytes.length then bytes.drop (bytes.length - ring.capacity) else bytes) := by
  rw [sourceChecked, sliceFrom, if_pos (Nat.sub_le ..)]
  split_ifs <;> rfl

theorem Sound.pushChecked (sound : ring.Sound) (bytes : List UInt8) :
    ring.pushChecked bytes = some (ring.push bytes) := by
  rw [RingBuffer.pushChecked, RingBuffer.push]
  split
  · rfl
  split
  · rfl
  · have marked (flag : Bool) : ({ ring with overflowed := flag } : RingBuffer).Sound :=
      ⟨sound.positive, sound.size, sound.head, sound.len, sound.filling⟩
    rw [sourceChecked_eq]
    exact (marked _).pushBytesChecked _

theorem mapM_of_forall {read : ℕ → Option UInt8} {value : ℕ → UInt8} {places : List ℕ}
    (reads : ∀ i ∈ places, read i = some (value i)) : places.mapM read = some (places.map value) := by
  induction places with
  | nil => rfl
  | cons i places ih =>
    obtain ⟨here, others⟩ := List.forall_mem_cons.mp reads
    rw [List.mapM_cons, here, ih others]
    rfl

theorem Records.asBytesChecked (records : ring.Records stream) : ring.asBytesChecked = some ring.asBytes := by
  rcases records.contents with holds | ⟨none, empty⟩
  · have sound := holds.sound
    have positive := Nat.pos_iff_ne_zero.mp sound.positive
    rw [RingBuffer.asBytesChecked, RingBuffer.asBytes]
    refine mapM_of_forall fun i _ => ?_
    have inside := Nat.mod_lt ((if ring.len < ring.capacity then 0 else ring.head) + i) sound.positive
    rw [byteAt, if_neg positive, List.getD_eq_getElem?_getD, List.getElem?_eq_getElem (sound.size ▸ inside)]
    rfl
  · rw [RingBuffer.asBytesChecked, RingBuffer.asBytes, empty]
    rfl

end Checks

/-- No push leaves the array, and the buffer goes on to hold the end of the stream. -/
theorem Records.push (records : ring.Records stream) (bytes : List UInt8) :
    ∃ after, ring.pushChecked bytes = some after ∧ after.capacity = ring.capacity ∧
      after.Records (stream ++ bytes) := by
  have flag := records.flag
  have len := records.len
  rcases records.contents with holds | ⟨none, empty⟩
  · refine ⟨ring.push bytes, holds.sound.pushChecked bytes, capacity_push ring bytes, .inl (holds.push bytes), ?_⟩
    rw [capacity_push, holds.sound.overflowed_push, flag, len, List.length_append, ← Bool.decide_or,
      decide_eq_decide]
    omega
  · by_cases same : bytes = []
    · refine ⟨ring, by rw [pushChecked, if_pos same], rfl, ?_⟩
      rw [same, List.append_nil]
      exact records
    · refine ⟨{ ring with overflowed := true }, ?_, rfl, .inr ⟨none, empty⟩, ?_⟩
      · rw [pushChecked, if_neg same, if_pos none]
      · have positive := List.length_pos_of_ne_nil same
        rw [eq_comm, decide_eq_true_iff, List.length_append]
        change ring.capacity < _
        omega

theorem Records.pushes {ring : RingBuffer} {stream : List UInt8} (records : ring.Records stream)
    (pushes : List (List UInt8)) :
    ∃ after, pushes.foldlM pushChecked ring = some after ∧ after.capacity = ring.capacity ∧
      after.Records (stream ++ pushes.flatten) := by
  induction pushes generalizing ring stream with
  | nil => exact ⟨ring, rfl, rfl, by simpa using records⟩
  | cons bytes pushes ih =>
    obtain ⟨next, pushed, same, records⟩ := records.push bytes
    obtain ⟨after, run, same', records'⟩ := ih records
    refine ⟨after, ?_, same'.trans same, ?_⟩
    · rw [List.foldlM_cons, pushed]
      exact run
    · rwa [List.flatten_cons, ← List.append_assoc]

/-- The tail is the end of the stream, and the flag says whether something of it is missing. -/
theorem Records.tailWithTruncationChecked (records : ring.Records stream) (n : ℕ) :
    ring.tailWithTruncationChecked n = some (stream.rtake (min n ring.capacity),
      decide (min n (min ring.capacity stream.length) < stream.length)) := by
  have flag := records.flag
  have len := records.len
  have length : ring.asBytes.length = ring.len := length_asBytes ring
  rw [RingBuffer.tailWithTruncationChecked, records.asBytesChecked]
  by_cases none : min n ring.len = 0
  · rw [if_pos none, flag, ← Bool.decide_or, Option.some.injEq, Prod.mk.injEq, List.rtake, decide_eq_decide]
    exact ⟨(List.drop_of_length_le (by omega)).symm, by omega⟩
  · rw [if_neg none]
    change (sliceFrom ring.asBytes (ring.asBytes.length - min n ring.len)).bind _ = _
    rw [sliceFrom, if_pos (Nat.sub_le ..), length, flag, Option.bind_some, ← Bool.decide_or]
    change some _ = _
    rw [Option.some.injEq, Prod.mk.injEq, decide_eq_decide, records.asBytes, List.rtake, List.rtake,
      List.drop_drop]
    exact ⟨by congr 1; omega, by omega⟩

/-- For every capacity and every sequence of pushes the stored bytes are the last ones of all that was
pushed, and a tail comes with a flag that is set exactly when it is shorter than that. -/
theorem ring_buffer_law (capacity : ℕ) (pushes : List (List UInt8)) :
    ∃ ring, pushes.foldlM pushChecked (new capacity) = some ring ∧
      ring.asBytesChecked = some (pushes.flatten.rtake capacity) ∧
      ∀ n, ring.tailWithTruncationChecked n = some (pushes.flatten.rtake (min n capacity),
        decide (min n (min capacity pushes.flatten.length) < pushes.flatten.length)) := by
  obtain ⟨ring, run, same, records⟩ := (records_new capacity).pushes pushes
  obtain rfl : ring.capacity = capacity := same
  rw [List.nil_append] at records
  exact ⟨ring, run, by rw [records.asBytesChecked, records.asBytes], records.tailWithTruncationChecked⟩

end CueShell.RingBuffer
