import StoreBench.Random.Block
/-!
# Random streams

A stream is the endless concatenation of the blocks from its seed on, the block index wrapping at
64 bits. Drawing returns the drawn value with the rest of the stream, so equal streams draw equal
values.
-/

namespace StoreBench.Random

/-- A position in the stream: the bytes left of the current block and the index of the next. -/
structure Stream where
  pending : Bytes
  nextBlock : UInt64

namespace Stream

def ofSeed (seed : UInt64) : Stream := ⟨[], seed⟩

def nextByte (s : Stream) : UInt8 × Stream :=
  match s.pending with
  | b :: rest => (b, { s with pending := rest })
  | [] =>
    match block s.nextBlock with
    | b :: rest => (b, ⟨rest, s.nextBlock + 1⟩)
    | [] => (0, s)

def nextBytes : (count : Nat) → Stream → Bytes × Stream
  | 0, s => ([], s)
  | count + 1, s =>
    let (b, s) := s.nextByte
    let (rest, s) := nextBytes count s
    (b :: rest, s)

@[simp] theorem length_nextBytes (count : Nat) (s : Stream) :
    (nextBytes count s).1.length = count := by
  induction count generalizing s with
  | zero => rfl
  | succ count ih => simp [nextBytes, ih]

/-- The little-endian number in the next `width` bytes. -/
def nextNat (width : Nat) (s : Stream) : Nat × Stream :=
  let (bytes, s) := nextBytes width s
  (Bytes.toNatLE bytes, s)

theorem nextNat_lt (width : Nat) (s : Stream) : (nextNat width s).1 < Nat.pow 256 width := by
  simpa [nextNat] using Bytes.toNatLE_lt (nextBytes width s).1

def nextUInt32 (s : Stream) : UInt32 × Stream :=
  let (n, s) := s.nextNat 4
  (UInt32.ofNat n, s)

/-- A number below `2 ^ 64`. -/
def nextWord (s : Stream) : Nat × Stream := s.nextNat 8

theorem nextWord_lt (s : Stream) : s.nextWord.1 < UInt64.size := nextNat_lt 8 s

/-- A number below `n`, for a positive `n`. -/
def nextBelow (n : Nat) (s : Stream) : Nat × Stream :=
  let (word, s) := s.nextWord
  (word % n, s)

theorem nextBelow_lt {n : Nat} (s : Stream) (h : 0 < n) : (s.nextBelow n).1 < n :=
  Nat.mod_lt _ h

/-- A number of 2 ^ -53 parts in `[0, 1)`. -/
def nextFraction (s : Stream) : Nat × Stream :=
  let (n, s) := s.nextNat 7
  (n % (1 <<< 53), s)

/-- A double in `[0, 1)`. -/
def nextUnit (s : Stream) : Float × Stream :=
  let (n, s) := s.nextFraction
  (n.toFloat / (1 <<< 53 : Nat).toFloat, s)

end Stream

end StoreBench.Random
