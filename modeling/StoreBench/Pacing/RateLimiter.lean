import StoreBench.Numeric.Rounding
import StoreBench.Pacing.Bucket
import StoreBench.Pacing.Share
import StoreBench.Program
/-!
# Rate limiters

A rate limiter is a bucket with one token per operation. It starts full. A refill adds one token up
to a million operations per second, and more above, so that the interval never falls below a
microsecond. A limiter is what happens between two refills, and waiting for a token is waiting for
one refill.
-/

namespace StoreBench

open Numeric

namespace Refill

/-- The refill for a positive rate. The amount is found in double precision. -/
def ofRate (rate : Nat) : Refill :=
  let amount := (roundToDouble (roundToDouble rate / 1000000)).ceil.toNat
  ⟨amount, 1000000000 / (rate / amount)⟩

/-- Whole operations per second, counting whole intervals per second. -/
def rate (r : Refill) : Nat := r.amount * (1000000000 / max r.interval 1)

end Refill

structure RateLimiter where
  bucket : Bucket
  deriving DecidableEq, Repr

/-- A change of settings. What was set before a refusal stays set. -/
abbrev BucketM := ExceptT Misconfiguration (StateM Bucket)

namespace RateLimiter

/-- A limiter that allows `rate` operations per second and `burst` at once. -/
def ofRate? (rate burst : Nat) : Except Misconfiguration RateLimiter :=
  if rate = 0 then .error .zeroRate
  else
    let refill := Refill.ofRate rate
    let capacity := max burst refill.amount
    ((Bucket.build? refill capacity capacity).mapError .bucket).map .mk

/-- One limiter per thread, together allowing `total` operations per second. -/
def forThreads? [Machine] (total threads : Nat) :
    Except (FailureOf Misconfiguration) (List RateLimiter) := do
  (← splitRate? total threads).mapM fun rate => (ofRate? rate 1).mapError .raised

def adjust (set? : Bucket → Except BucketRefusal Bucket) : BucketM Unit := do
  set (← MonadExcept.ofExcept ((set? (← get)).mapError Misconfiguration.bucket))

/-- Change the rate, raising the capacity first if a refill would not fit. -/
def changeRate (rate : Nat) : BucketM Unit := do
  if rate = 0 then throw .zeroRate
  let refill := Refill.ofRate rate
  if (← get).capacity < refill.amount then adjust (·.setCapacity? refill.amount)
  adjust (·.setInterval? refill.interval)
  adjust (·.setAmount? refill.amount)

variable (l : RateLimiter)

/-- The limiter with another rate. -/
def setRate? (rate : Nat) : Except Misconfiguration RateLimiter :=
  let (result, bucket) := (changeRate rate).run l.bucket
  result.map fun _ => ⟨bucket⟩

/-- Take a token if there is one. -/
def tryConsume : Bool × RateLimiter := l.bucket.take.map id .mk

/-- Take a token, after a refill if there is none. -/
def consume {ι : Interface} : Program ι RateLimiter :=
  match l.tryConsume with
  | (true, l) => return l
  | (false, l) => do
    Program.click .stall
    return ⟨l.bucket.refilled.take.2⟩

/-- The rate in operations per second, as long as it fits a machine word. -/
def rate? : Except Failure Nat :=
  if l.bucket.refill.rate < UInt64.size then .ok l.bucket.refill.rate else .error .fault

/-- The form that shows the rate and the capacity. -/
def inspect? : Except Failure String := do
  let rate ← l.rate?
  return Text.record "RateLimiter"
    [("rate", toString rate), ("max_tokens", toString l.bucket.capacity)]

end RateLimiter

end StoreBench
