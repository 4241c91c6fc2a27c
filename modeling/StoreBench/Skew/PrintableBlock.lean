import StoreBench.Random.Stream
/-!
# Printable blocks

One 32-bit draw yields six bytes between the space and 127: each byte is a window of the draw,
masked and added to the space.
-/

namespace StoreBench.Skew

open StoreBench.Random

abbrev Block := Vector UInt8 6

/-- Where each byte's window starts and the bits kept of it. -/
def windows : Vector (UInt32 × UInt32) 6 :=
  #v[(0, 31), (5, 63), (10, 95), (15, 31), (20, 63), (25, 95)]

/-- The six bytes sliced out of `bits`. -/
def printableBlock (bits : UInt32) : Block :=
  windows.map fun window => ((bits >>> window.1) &&& window.2).toUInt8 + 32

def drawBlock (s : Stream) : Block × Stream :=
  let (bits, s) := s.nextUInt32
  (printableBlock bits, s)

def drawBlocks : (count : Nat) → Stream → List Block × Stream
  | 0, s => ([], s)
  | count + 1, s =>
    let (block, s) := drawBlock s
    let (rest, s) := drawBlocks count s
    (block :: rest, s)

@[simp] theorem length_drawBlocks (count : Nat) (s : Stream) :
    (drawBlocks count s).1.length = count := by
  induction count generalizing s with
  | zero => rfl
  | succ count ih => simp [drawBlocks, ih]

end StoreBench.Skew
