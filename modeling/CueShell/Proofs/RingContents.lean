import CueShell.Model.RingBuffer
import Mathlib.Data.List.Basic
import Mathlib.Tactic.Cases

/-! # What a ring buffer holds

The buffer holds the last bytes of everything that was ever pushed, as many as its capacity allows.
-/

namespace CueShell.RingBuffer

variable {ring : RingBuffer} {stream : List UInt8} {byte : UInt8}

/-- The positions are inside the buffer, and until it is full it is written from its start. -/
structure Sound (ring : RingBuffer) : Prop where
  positive : 0 < ring.capacity
  size : ring.data.length = ring.capacity
  head : ring.head < ring.capacity
  len : ring.len ≤ ring.capacity
  filling : ring.len < ring.capacity → ring.head = ring.len

/-- The buffer holds the end of a stream. -/
structure Holds (ring : RingBuffer) (stream : List UInt8) : Prop where
  sound : ring.Sound
  len : ring.len = min stream.length ring.capacity
  bytes : ring.asBytes = stream.drop (stream.length - ring.len)

theorem holds_new {capacity : ℕ} (positive : 0 < capacity) : (new capacity).Holds [] where
  sound :=
    { positive := positive
      size := List.length_replicate
      head := positive
      len := Nat.zero_le _
      filling := fun _ => rfl }
  len := by simp [new]
  bytes := by simp [asBytes, new]

theorem Sound.pushByte (sound : ring.Sound) (byte : UInt8) : (ring.pushByte byte).Sound where
  positive := sound.positive
  size := by simp [RingBuffer.pushByte, sound.size]
  head := Nat.mod_lt _ sound.positive
  len := by
    have bound := sound.len
    simp only [RingBuffer.pushByte]
    split <;> omega
  filling := by
    intro room
    have filling := sound.filling
    simp only [RingBuffer.pushByte] at room ⊢
    split at room
    · rename_i free
      rw [if_pos free, filling free]
      exact Nat.mod_eq_of_lt room
    · rename_i full
      exact absurd room full

theorem getD_set (data : List UInt8) {position other : ℕ} (inside : position < data.length) :
    (data.set position byte).getD other 0 = if other = position then byte else data.getD other 0 := by
  rw [List.getD_eq_getElem?_getD, List.getD_eq_getElem?_getD]
  by_cases same : other = position
  · rw [if_pos same, same, List.getElem?_set_self inside, Option.getD_some]
  · rw [if_neg same, List.getElem?_set_ne (Ne.symm same)]

/-- While there is room, a byte comes behind the others. -/
theorem asBytes_pushByte_room (sound : ring.Sound) (room : ring.len < ring.capacity) :
    (ring.pushByte byte).asBytes = ring.asBytes ++ [byte] := by
  have head := sound.filling room
  have inside : ring.head < ring.data.length := by rw [sound.size]; exact sound.head
  have start : (if ring.len + 1 < ring.capacity then 0 else (ring.head + 1) % ring.capacity) = 0 := by
    split
    · rfl
    · have full : ring.head + 1 = ring.capacity := by omega
      rw [full, Nat.mod_self]
  simp only [asBytes, pushByte, if_pos room, start, List.range_succ, List.map_append, List.map_singleton]
  congr 1
  · refine List.map_congr_left fun i member => ?_
    have before : i < ring.len := List.mem_range.mp member
    rw [getD_set _ inside, Nat.zero_add, Nat.mod_eq_of_lt (by omega), if_neg (by omega)]
  · rw [getD_set _ inside, Nat.zero_add, Nat.mod_eq_of_lt (by omega), if_pos head.symm]

/-- In a full buffer a byte takes the place of the oldest one. -/
theorem asBytes_pushByte_full (sound : ring.Sound) (full : ring.len = ring.capacity) :
    (ring.pushByte byte).asBytes = ring.asBytes.tail ++ [byte] := by
  have inside : ring.head < ring.data.length := by rw [sound.size]; exact sound.head
  have bound := sound.head
  obtain ⟨count, size⟩ : ∃ count, ring.capacity = count + 1 :=
    Nat.exists_eq_succ_of_ne_zero (Nat.pos_iff_ne_zero.mp sound.positive)
  have closed : ¬ ring.len < ring.capacity := by omega
  simp only [asBytes, pushByte, if_neg closed]
  rw [full, size, List.range_succ, List.map_append, List.map_singleton, ← List.range_succ,
    List.range_succ_eq_map, List.map_cons, List.tail_cons, List.map_map]
  congr 1
  · refine List.map_congr_left fun i member => ?_
    have before : i < count := List.mem_range.mp member
    have shifted : ((ring.head + 1) % (count + 1) + i) % (count + 1) = (ring.head + (i + 1)) % (count + 1) := by
      rw [Nat.mod_add_mod]
      congr 1
      omega
    have other : (ring.head + (i + 1)) % (count + 1) ≠ ring.head := by
      intro same
      rcases Nat.lt_or_ge (ring.head + (i + 1)) (count + 1) with small | large
      · rw [Nat.mod_eq_of_lt small] at same
        omega
      · rw [Nat.mod_eq_sub_mod large, Nat.mod_eq_of_lt (by omega)] at same
        omega
    rw [getD_set _ inside, shifted, if_neg other]
    rfl
  · have last : ((ring.head + 1) % (count + 1) + count) % (count + 1) = ring.head := by
      rw [Nat.mod_add_mod, Nat.add_assoc, Nat.add_comm 1 count, Nat.add_mod_right, Nat.mod_eq_of_lt (by omega)]
    rw [getD_set _ inside, last, if_pos rfl]

theorem Holds.pushByte (holds : ring.Holds stream) (byte : UInt8) :
    (ring.pushByte byte).Holds (stream ++ [byte]) where
  sound := holds.sound.pushByte byte
  len := by
    have len := holds.len
    simp only [RingBuffer.pushByte, List.length_append, List.length_singleton]
    split <;> omega
  bytes := by
    have len := holds.len
    have bound := holds.sound.len
    by_cases room : ring.len < ring.capacity
    · have whole : ring.len = stream.length := by omega
      rw [asBytes_pushByte_room holds.sound room, holds.bytes]
      simp only [RingBuffer.pushByte, if_pos room, List.length_append, List.length_singleton]
      rw [whole, Nat.sub_self, Nat.sub_self, List.drop_zero, List.drop_zero]
    · have full : ring.len = ring.capacity := by omega
      have positive := holds.sound.positive
      rw [asBytes_pushByte_full holds.sound full, holds.bytes, List.tail_drop]
      simp only [RingBuffer.pushByte, if_neg room, List.length_append, List.length_singleton]
      rw [List.drop_append_of_le_length (by omega)]
      congr 2
      omega

theorem Holds.pushBytes (holds : ring.Holds stream) (bytes : List UInt8) :
    (bytes.foldl RingBuffer.pushByte ring).Holds (stream ++ bytes) := by
  induction bytes generalizing ring stream with
  | nil => simpa using holds
  | cons byte bytes ih =>
    have later := ih (holds.pushByte byte)
    simpa [List.append_assoc] using later

theorem capacity_pushBytes (bytes : List UInt8) (ring : RingBuffer) :
    (bytes.foldl RingBuffer.pushByte ring).capacity = ring.capacity := by
  induction bytes generalizing ring with
  | nil => rfl
  | cons byte bytes ih => exact ih _

theorem capacity_push (ring : RingBuffer) (bytes : List UInt8) : (ring.push bytes).capacity = ring.capacity := by
  unfold push
  split
  · rfl
  · split
    · rfl
    · exact capacity_pushBytes _ _

/-- What stands between does not matter to a buffer that the last bytes fill. -/
theorem Holds.skip {last : List UInt8} (holds : ring.Holds (stream ++ last)) (full : last.length = ring.capacity)
    (between : List UInt8) : ring.Holds (stream ++ (between ++ last)) where
  sound := holds.sound
  len := by
    have len := holds.len
    simp only [List.length_append] at len ⊢
    omega
  bytes := by
    have len := holds.len
    have whole : ring.len = last.length := by
      rw [len, List.length_append]
      omega
    rw [holds.bytes, whole, ← List.append_assoc]
    simp only [List.length_append, Nat.add_sub_cancel]
    rw [List.drop_left, ← List.length_append, List.drop_left]

theorem Holds.push (holds : ring.Holds stream) (bytes : List UInt8) :
    (ring.push bytes).Holds (stream ++ bytes) := by
  have positive := holds.sound.positive
  unfold RingBuffer.push
  split
  · rename_i empty
    simpa [empty] using holds
  · rw [if_neg (by omega)]
    dsimp only
    have marked : ({ ring with
        overflowed := ring.overflowed || ring.capacity < ring.len + bytes.length } : RingBuffer).Holds stream :=
      ⟨⟨holds.sound.positive, holds.sound.size, holds.sound.head, holds.sound.len, holds.sound.filling⟩,
        holds.len, holds.bytes⟩
    split
    · rename_i large
      have later := marked.pushBytes (bytes.drop (bytes.length - ring.capacity))
      have full : (bytes.drop (bytes.length - ring.capacity)).length = ring.capacity := by
        rw [List.length_drop]
        omega
      have skipped := later.skip (by rw [capacity_pushBytes]; exact full)
        (bytes.take (bytes.length - ring.capacity))
      rwa [List.take_append_drop] at skipped
    · exact marked.pushBytes bytes

theorem length_asBytes (ring : RingBuffer) : ring.asBytes.length = ring.len := by simp [asBytes]

/-- The tail of a length that covers the capacity is all the buffer holds. -/
theorem Holds.tail (holds : ring.Holds stream) {count : ℕ} (covers : ring.capacity ≤ count) :
    (ring.tailWithTruncation count).1 = stream.drop (stream.length - ring.len) := by
  have bound := holds.sound.len
  have all : min count ring.len = ring.len := by omega
  simp only [tailWithTruncation, all]
  split
  · rename_i none
    rw [none]
    simp
  · rw [length_asBytes, Nat.sub_self, List.drop_zero, holds.bytes]

end CueShell.RingBuffer
