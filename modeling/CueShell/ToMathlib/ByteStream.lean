import Mathlib.Data.List.Basic
import Mathlib.Tactic.SplitIfs
import Mathlib.Algebra.Group.Nat.Defs

/-! # Byte streams that arrive in pieces

A stream hands out its bytes in reads of any size. A read without bytes is the end of the stream, so a
piece has at least one byte. Filling a buffer depends only on the bytes, not on how they are cut. The
second part is the big-endian form of a 32-bit number.
-/

namespace ByteStream

/-- What one read hands out. -/
abbrev Piece := { bytes : List UInt8 // bytes ≠ [] }

/-- The bytes of a stream. -/
def content (pieces : List Piece) : List UInt8 := pieces.flatMap Subtype.val

@[simp] theorem content_nil : content [] = [] := rfl

@[simp] theorem content_cons (piece : Piece) (rest : List Piece) :
    content (piece :: rest) = piece.val ++ content rest := rfl

/-- Fill a buffer; there is none to fill if the stream ends before. -/
def readExact : ℕ → List Piece → Option (List UInt8 × List Piece)
  | 0, pieces => some ([], pieces)
  | _ + 1, [] => none
  | size + 1, piece :: rest =>
      if short : piece.val.length ≤ size + 1 then
        (readExact (size + 1 - piece.val.length) rest).map fun (bytes, left) =>
          (piece.val ++ bytes, left)
      else
        some (piece.val.take (size + 1),
          ⟨piece.val.drop (size + 1), by simpa [List.drop_eq_nil_iff] using short⟩ :: rest)

/-- The first bytes of a stream fill a buffer of their number, and the others are left. -/
theorem readExact_append {front back : List UInt8} {pieces : List Piece}
    (bytes : content pieces = front ++ back) :
    ∃ left, readExact front.length pieces = some (front, left) ∧ content left = back := by
  induction pieces generalizing front with
  | nil =>
    obtain ⟨rfl, rfl⟩ := List.append_eq_nil_iff.mp bytes.symm
    exact ⟨[], rfl, rfl⟩
  | cons piece rest ih =>
    rw [content_cons] at bytes
    cases front with
    | nil => exact ⟨piece :: rest, rfl, bytes⟩
    | cons first others =>
      rcases List.append_eq_append_iff.mp bytes with ⟨more, front, remains⟩ | ⟨extra, whole, remains⟩
      · -- The piece is used up, and the rest of the stream fills the rest of the buffer.
        obtain ⟨left, filled, after⟩ := ih remains
        have size : (first :: others).length = piece.val.length + more.length := by
          rw [front, List.length_append]
        refine ⟨left, ?_, after⟩
        rw [List.length_cons] at size
        rw [List.length_cons, readExact, dif_pos (by omega), front]
        have needed : others.length + 1 - piece.val.length = more.length := by omega
        rw [needed, filled]
        rfl
      · by_cases full : extra = []
        · subst full
          rw [List.append_nil] at whole
          rw [List.nil_append] at remains
          refine ⟨rest, ?_, remains.symm⟩
          rw [List.length_cons, readExact, dif_pos (by simp [whole])]
          have needed : others.length + 1 - piece.val.length = 0 := by simp [whole]
          rw [needed, whole]
          simp [readExact]
        · have longer : ¬ piece.val.length ≤ others.length + 1 := by
            have positive := List.length_pos_iff.mpr full
            rw [whole, List.length_append, List.length_cons]
            omega
          refine ⟨⟨extra, full⟩ :: rest, ?_, ?_⟩
          · rw [List.length_cons, readExact, dif_neg longer]
            have front : piece.val.take (others.length + 1) = first :: others := by
              rw [whole]
              simp
            have back : piece.val.drop (others.length + 1) = extra := by
              rw [whole]
              simp
            simp only [front, back]
          · rw [content_cons, remains]

theorem content_eq_nil {pieces : List Piece} (bytes : content pieces = []) : pieces = [] := by
  cases pieces with
  | nil => rfl
  | cons piece rest =>
    rw [content_cons] at bytes
    exact absurd (List.append_eq_nil_iff.mp bytes).1 piece.property

/-- Any bytes may arrive at once. -/
def whole (bytes : List UInt8) : List Piece :=
  if empty : bytes = [] then [] else [⟨bytes, empty⟩]

theorem content_whole (bytes : List UInt8) : content (whole bytes) = bytes := by
  unfold whole
  split_ifs with empty
  · exact empty.symm
  · exact List.append_nil bytes

/-- The bytes of a number, the highest first. -/
def toBeBytes (number : UInt32) : List UInt8 :=
  [.ofNat (number.toNat / 2 ^ 24), .ofNat (number.toNat / 2 ^ 16), .ofNat (number.toNat / 2 ^ 8),
    .ofNat number.toNat]

def fromBeBytes (bytes : List UInt8) : UInt32 :=
  .ofNat (bytes.foldl (fun number byte => number * 2 ^ 8 + byte.toNat) 0)

@[simp] theorem toBeBytes_length (number : UInt32) : (toBeBytes number).length = 4 := rfl

theorem fromBeBytes_toBeBytes (number : UInt32) : fromBeBytes (toBeBytes number) = number := by
  apply UInt32.toNat_inj.mp
  have bound := number.toNat_lt
  simp only [fromBeBytes, toBeBytes, List.foldl_cons, List.foldl_nil, UInt8.toNat_ofNat',
    UInt32.toNat_ofNat']
  omega

end ByteStream
