import StoreBench.Error
import StoreBench.Random.Stream
import StoreBench.Skew.BytePool
import StoreBench.Skew.DistinctPool
/-!
# Workers

A worker owns a random stream and a byte pool filled from it. Everything it draws comes from the
two, so workers with different streams do not disturb each other. What it draws on the way to an
operation stays drawn when the operation fails.
-/

namespace StoreBench

open StoreBench.Random Skew

structure Worker where
  stream : Stream
  pool : BytePool

namespace Worker

/-- The worker of a seed, with a byte pool of `poolSize` blocks. -/
def ofSeed? [Machine] (seed : UInt64) (poolSize : Nat) : Except Failure Worker := do
  let (pool, stream) ←
    (BytePool.draw? poolSize (Stream.ofSeed seed)).mapError (.map Error.ofGenerator)
  return ⟨stream, pool⟩

end Worker

/-- A program with a worker to draw from, which ends with a value or with the reason why there is
none. Either way the worker is the one after the draws. -/
abbrev Drawing (ι : Interface) (α : Type) : Type := ExceptT Failure (StateT Worker (Program ι)) α

namespace Drawing

variable {ι : Interface} {α : Type}

def lift (p : Program ι α) : Drawing ι α := ExceptT.lift (StateT.lift p)

def click (sensor : Sensor) : Drawing ι Unit := lift (Program.click sensor)

def ofExcept (result : Except Failure α) : Drawing ι α := ExceptT.mk (pure result)

/-- Draw from the worker's stream and report what happens. -/
def reported (draw : Stream → Program ι (α × Stream)) : Drawing ι α := do
  let (a, stream) ← lift (draw (← get).stream)
  modify fun w => { w with stream }
  return a

/-- Draw from the worker's stream. -/
def fromStream (draw : Stream → α × Stream) : Drawing ι α := reported fun s => return draw s

/-- A number below `n`. -/
def below (n : Nat) : Drawing ι Nat := fromStream (Stream.nextBelow n)

/-- Bytes from the worker's pool, which moves to its next block. More bytes than memory can hold
leave the pool where it is. -/
def filler [Machine] (length : Nat) : Drawing ι Bytes := do
  let (bytes, pool) ← ofExcept ((← get).pool.fill? length)
  let pool ← lift pool.reset
  modify fun w => { w with pool }
  return bytes

end Drawing

end StoreBench
