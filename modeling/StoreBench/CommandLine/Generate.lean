import StoreBench.CommandLine.Exit
import StoreBench.CommandLine.Options
/-!
# The generator command

Builds a pool of distinct values and prints the pool itself, values selected from it, or ranges
selected from it.
-/

namespace StoreBench.CommandLine

open StoreBench.Random Skew

structure GenerateOptions where
  pool : DistinctOptions := {}
  /-- `pool`, `next` or `ranges`. -/
  mode : String := "next"
  number : Nat := 1000
  seed : UInt64 := 0

namespace GenerateOptions

def settings : List (Setting GenerateOptions) :=
  Setting.nest "pool" (·.pool) (fun p o => { o with pool := p }) DistinctOptions.settings ++ [
    ⟨"mode", .text (·.mode) fun s o => { o with mode := s }⟩,
    ⟨"number", .number 64 (·.number) fun n o => { o with number := n }⟩,
    ⟨"seed", .number 64 (·.seed.toNat) fun n o => { o with seed := UInt64.ofNat n }⟩]

end GenerateOptions

namespace Generate

def usage : String := "Usage: skewgen [--pool-options] [--mode pool|next|ranges] [--number N]"

/-- The text of a value, which is printable ASCII. -/
def textOf (value : Bytes) : String := String.ofList (value.map fun b => Char.ofNat b.toNat)

/-- Lines for values selected one after another. -/
def valueLines (pool : DistinctPool) : (number : Nat) → Stream → List String
  | 0, _ => []
  | number + 1, s =>
    let (value, s) := pool.pick s
    textOf value :: valueLines pool number s

/-- Lines for ranges selected one after another: both indices, and the values they select. -/
def rangeLines (pool : DistinctPool) : (number : Nat) → Stream → List String
  | 0, _ => []
  | number + 1, s =>
    let picked := pool.pickIndices s
    have bounds := pool.pickIndices_lt s
    let (low, high) := picked.1
    " ".intercalate [toString low, toString high,
      Text.quote (textOf (pool.valueAt picked.1.1 bounds.1)),
      Text.quote (textOf (pool.valueAt picked.1.2 bounds.2))] :: rangeLines pool number picked.2

/-- Print from a pool what the options ask for. -/
def print (o : GenerateOptions) (pool : DistinctPool) : Exit :=
  let s := Stream.ofSeed o.seed
  match o.mode with
  | "pool" => .success (pool.values.toList.map textOf)
  | "next" => .success (valueLines pool o.number s)
  | "ranges" => .success (rangeLines pool o.number s)
  | mode => .failure ["unknown mode " ++ mode, usage]

/-- The whole command. -/
def command (args : List String) : Exit :=
  withOptions usage GenerateOptions.settings {} args fun o free =>
    if !free.isEmpty then .failure ["free arguments are not accepted"]
    else
      match (o.pool.build : Program .silent _).observe.1 with
      | .error e => .failure ["invalid pool options: " ++ e.message]
      | .ok pool => print o pool

end Generate

end StoreBench.CommandLine
