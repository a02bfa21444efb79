import Mathlib.Data.Nat.Notation

/-! # The output ring buffer

A byte buffer of fixed capacity for the output of a process. Once it is full, new bytes overwrite the
oldest ones.
-/

namespace CueShell

structure RingBuffer where
  data : List UInt8
  /-- The position of the next write. -/
  head : ℕ
  len : ℕ
  capacity : ℕ
  /-- Whether bytes have been dropped. -/
  overflowed : Bool

namespace RingBuffer

def defaultCapacity : ℕ := 1048576

def new (capacity : ℕ) : RingBuffer where
  data := List.replicate capacity 0
  head := 0
  len := 0
  capacity := capacity
  overflowed := false

/-- One turn of the loop of `push`. -/
def pushByte (ring : RingBuffer) (byte : UInt8) : RingBuffer :=
  { ring with
    data := ring.data.set ring.head byte
    head := (ring.head + 1) % ring.capacity
    len := if ring.len < ring.capacity then ring.len + 1 else ring.len }

/-- Of a slice that is larger than the buffer, only the last bytes are written. -/
def push (ring : RingBuffer) (bytes : List UInt8) : RingBuffer :=
  if bytes = [] then ring
  else if ring.capacity = 0 then { ring with overflowed := true }
  else
    let overflowed := ring.overflowed || ring.capacity < ring.len + bytes.length
    let source :=
      if ring.capacity < bytes.length then bytes.drop (bytes.length - ring.capacity) else bytes
    source.foldl pushByte { ring with overflowed := overflowed }

/-- The bytes in chronological order; in a full buffer the oldest one is at the head. -/
def asBytes (ring : RingBuffer) : List UInt8 :=
  let start := if ring.len < ring.capacity then 0 else ring.head
  (List.range ring.len).map fun i => ring.data.getD ((start + i) % ring.capacity) 0

def tailWithTruncation (ring : RingBuffer) (n : ℕ) : List UInt8 × Bool :=
  let n := min n ring.len
  if n = 0 then ([], ring.overflowed || 0 < ring.len)
  else
    let all := ring.asBytes
    (all.drop (all.length - n), ring.overflowed || n < all.length)

section Checked

/-- One turn of the loop of `push`, with its index and its remainder checked. -/
def pushByteChecked (ring : RingBuffer) (byte : UInt8) : Option RingBuffer :=
  if ring.head < ring.data.length ∧ ring.capacity ≠ 0 then some (ring.pushByte byte) else none

/-- `&bytes[start..]`. -/
def sliceFrom (bytes : List UInt8) (start : ℕ) : Option (List UInt8) :=
  if start ≤ bytes.length then some (bytes.drop start) else none

/-- The bytes of a slice that are written. -/
def sourceChecked (ring : RingBuffer) (bytes : List UInt8) : Option (List UInt8) :=
  if ring.capacity < bytes.length then sliceFrom bytes (bytes.length - ring.capacity) else some bytes

def pushChecked (ring : RingBuffer) (bytes : List UInt8) : Option RingBuffer :=
  if bytes = [] then some ring
  else if ring.capacity = 0 then some { ring with overflowed := true }
  else do
    let overflowed := ring.overflowed || ring.capacity < ring.len + bytes.length
    let source ← ring.sourceChecked bytes
    source.foldlM pushByteChecked { ring with overflowed := overflowed }

/-- The stored byte `i` places behind the oldest one. -/
def byteAt (ring : RingBuffer) (i : ℕ) : Option UInt8 :=
  let start := if ring.len < ring.capacity then 0 else ring.head
  if ring.capacity = 0 then none else ring.data[(start + i) % ring.capacity]?

def asBytesChecked (ring : RingBuffer) : Option (List UInt8) :=
  (List.range ring.len).mapM ring.byteAt

def tailWithTruncationChecked (ring : RingBuffer) (n : ℕ) : Option (List UInt8 × Bool) :=
  let n := min n ring.len
  if n = 0 then some ([], ring.overflowed || 0 < ring.len)
  else do
    let all ← ring.asBytesChecked
    let last ← sliceFrom all (all.length - n)
    pure (last, ring.overflowed || n < all.length)

end Checked

end RingBuffer

end CueShell
