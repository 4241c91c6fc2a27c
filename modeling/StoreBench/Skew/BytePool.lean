import StoreBench.Machine
import StoreBench.Program
import StoreBench.Skew.Error
import StoreBench.Skew.PrintableBlock
/-!
# Byte pools

A byte pool is a fixed table of printable blocks that one worker cycles through byte by byte,
spending a random draw per block when it is made and none afterwards. The current block repeats
until the pool is moved to the next one. The type keeps both indices in range. There is no pool
that memory cannot hold, nor does a pool give more bytes than memory can hold.
-/

namespace StoreBench.Skew

open StoreBench.Random

structure BytePool where
  blocks : Array Block
  slot : Nat
  offset : Nat
  slot_lt : slot < blocks.size
  offset_lt : offset < 6

namespace BytePool

/-- A pool of `count` fresh blocks. -/
def draw? [Machine] (count : Nat) (s : Stream) : Except (FailureOf Error) (BytePool × Stream) :=
  if h : 0 < count then do
    reserve count 6
    let drawn := drawBlocks count s
    return ({
      blocks := drawn.1.toArray
      slot := 0
      offset := 0
      slot_lt := by simpa [drawn] using h
      offset_lt := by decide }, drawn.2)
  else .error (.raised (.invalid .noBlocks))

/-- A pool starts at the first of its fresh blocks. -/
theorem of_draw? [Machine] {count : Nat} {s rest : Stream} {pool : BytePool}
    (h : draw? count s = .ok (pool, rest)) :
    pool.blocks = (drawBlocks count s).1.toArray ∧ pool.slot = 0 ∧ pool.offset = 0 := by
  unfold draw? at h
  split at h
  · cases hreserve : (reserve count 6 : Except (FailureOf Error) Unit) with
    | error failure =>
      rw [hreserve] at h
      cases h
    | ok _ =>
      rw [hreserve] at h
      cases h
      exact ⟨rfl, rfl, rfl⟩
  · cases h

variable (pool : BytePool)

def size : Nat := pool.blocks.size

/-- The block being cycled through. -/
def current : Block :=
  have := pool.slot_lt
  pool.blocks[pool.slot]

/-- The next byte of the current block, wrapping within the block. -/
def next : UInt8 × BytePool :=
  have := pool.offset_lt
  (pool.current[pool.offset],
    { pool with offset := (pool.offset + 1) % 6, offset_lt := Nat.mod_lt _ (by decide) })

/-- The byte before the offset; rewinds to the start of the block. -/
def last : UInt8 × BytePool :=
  have : (pool.offset + 5) % 6 < 6 := Nat.mod_lt _ (by decide)
  (pool.current[(pool.offset + 5) % 6],
    { pool with offset := 0, offset_lt := by decide })

/-- The next `count` bytes, which are those of the current block over and over. -/
def fill (count : Nat) : Bytes × BytePool :=
  ((List.range' pool.offset count).map fun i =>
      have : i % 6 < 6 := Nat.mod_lt _ (by decide)
      pool.current[i % 6],
    { pool with offset := (pool.offset + count) % 6, offset_lt := Nat.mod_lt _ (by decide) })

/-- The next `count` bytes, if memory can hold them. -/
def fill? [Machine] {ε : Type} (count : Nat) : Except (FailureOf ε) (Bytes × BytePool) := do
  reserve count 1
  return pool.fill count

/-- The pool at the start of its next block. -/
def advance : BytePool :=
  { pool with
    slot := (pool.slot + 1) % pool.blocks.size
    offset := 0
    slot_lt := Nat.mod_lt _ (Nat.zero_lt_of_lt pool.slot_lt)
    offset_lt := by decide }

/-- Move to the next block and report it. -/
def reset {ι : Interface} : Program ι BytePool := do
  Program.click .poolReset
  return pool.advance

@[simp] theorem length_fill (count : Nat) : (pool.fill count).1.length = count := by simp [fill]

@[simp] theorem fill_zero : pool.fill 0 = ([], pool) := by
  simp [fill, Nat.mod_eq_of_lt pool.offset_lt]

/-- Filling takes one byte after another. -/
theorem fill_succ (count : Nat) :
    pool.fill (count + 1) =
      (pool.next.1 :: (pool.next.2.fill count).1, (pool.next.2.fill count).2) := by
  have h := Nat.mod_eq_of_lt pool.offset_lt
  simp [fill, next, current, List.range'_succ, List.range'_eq_map_range, h, Nat.add_assoc,
    Nat.add_comm 1 count]

end BytePool

end StoreBench.Skew
