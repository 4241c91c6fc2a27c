import StoreBench.Bytes
/-!
# Blocks of random bytes

A block of 64 bytes is a function of its 64-bit index alone: the index and four constants fill a
square of sixteen words, four double rounds of add, rotate and exclusive-or mix it, and the words
that held something at the start have their initial values added back.
-/

namespace StoreBench.Random

abbrev Words := Vector UInt32 16

/-- The sum of words `left` and `right`, rotated left by `rotation`, goes into word `target`. -/
structure MixStep where
  target : Fin 16
  left : Fin 16
  right : Fin 16
  rotation : UInt32

/-- The four columns in turn, then the four rows. -/
def doubleRound : List MixStep := [
  ⟨4, 8, 12, 7⟩, ⟨9, 13, 1, 7⟩, ⟨14, 2, 6, 7⟩, ⟨3, 7, 11, 7⟩,
  ⟨8, 12, 0, 9⟩, ⟨13, 1, 5, 9⟩, ⟨2, 6, 10, 9⟩, ⟨7, 11, 15, 9⟩,
  ⟨12, 0, 4, 13⟩, ⟨1, 5, 9, 13⟩, ⟨6, 10, 14, 13⟩, ⟨11, 15, 3, 13⟩,
  ⟨0, 4, 8, 18⟩, ⟨5, 9, 13, 18⟩, ⟨10, 14, 2, 18⟩, ⟨15, 3, 7, 18⟩,
  ⟨1, 2, 3, 7⟩, ⟨6, 7, 4, 7⟩, ⟨11, 8, 9, 7⟩, ⟨12, 13, 14, 7⟩,
  ⟨2, 3, 0, 9⟩, ⟨7, 4, 5, 9⟩, ⟨8, 9, 10, 9⟩, ⟨13, 14, 15, 9⟩,
  ⟨3, 0, 1, 13⟩, ⟨4, 5, 6, 13⟩, ⟨9, 10, 11, 13⟩, ⟨14, 15, 12, 13⟩,
  ⟨0, 1, 2, 18⟩, ⟨5, 6, 7, 18⟩, ⟨10, 11, 8, 18⟩, ⟨15, 12, 13, 18⟩]

def rotateLeft (x rotation : UInt32) : UInt32 := x <<< rotation ||| x >>> (32 - rotation)

def MixStep.apply (words : Words) (step : MixStep) : Words :=
  let mixed := rotateLeft (words[step.left] + words[step.right]) step.rotation
  words.set step.target (words[step.target] ^^^ mixed)

/-- The square of block `index` before mixing. -/
def initialWords (index : UInt64) : Words :=
  #v[0x61707865, 0, 0, 0, 0, 0x3320646e, index.toUInt32, (index >>> 32).toUInt32,
     0, 0, 0x79622d32, 0, 0, 0, 0, 0x6b206574]

/-- The order in which the mixed words leave the square. -/
def outputOrder : List (Fin 16) := [4, 9, 14, 3, 8, 13, 2, 7, 12, 1, 6, 11, 0, 5, 10, 15]

/-- The bytes of block `index`. -/
def block (index : UInt64) : Bytes :=
  let start := initialWords index
  let mixed := (List.replicate 4 doubleRound).flatten.foldl MixStep.apply start
  outputOrder.flatMap fun i => Bytes.ofNatLE 4 (mixed[i] + start[i]).toNat

@[simp] theorem length_block (index : UInt64) : (block index).length = 64 := by
  simp [block, outputOrder]

end StoreBench.Random
