import StoreBench.Error
/-!
# Token buckets

A bucket holds tokens and is refilled at a fixed interval up to its capacity. A refill is never
larger than the capacity, and an interval counts its nanoseconds in a machine word: a setting that
would break either is refused and changes nothing. Refills come with time, which is not kept here.
-/

namespace StoreBench

/-- Tokens added at a time, and the nanoseconds from one time to the next. -/
structure Refill where
  amount : Nat
  interval : Nat
  deriving DecidableEq, Repr

structure Bucket where
  refill : Refill
  capacity : Nat
  available : Nat
  amount_le : refill.amount ≤ capacity
  deriving DecidableEq, Repr

namespace Bucket

/-- A bucket with some tokens in it. -/
def build? (refill : Refill) (capacity available : Nat) : Except BucketRefusal Bucket :=
  if h : refill.amount ≤ capacity then
    if refill.interval < UInt64.size then .ok ⟨refill, capacity, available, h⟩
    else .error .longInterval
  else .error .lowCapacity

variable (b : Bucket)

/-- Change the capacity; a bucket with fewer tokens is filled up to it. -/
def setCapacity? (capacity : Nat) : Except BucketRefusal Bucket :=
  if h : b.refill.amount ≤ capacity then
    .ok ⟨b.refill, capacity, max b.available capacity, h⟩
  else .error .lowCapacity

def setInterval? (interval : Nat) : Except BucketRefusal Bucket :=
  if interval < UInt64.size then
    .ok ⟨⟨b.refill.amount, interval⟩, b.capacity, b.available, b.amount_le⟩
  else .error .longInterval

def setAmount? (amount : Nat) : Except BucketRefusal Bucket :=
  if h : amount ≤ b.capacity then .ok ⟨⟨amount, b.refill.interval⟩, b.capacity, b.available, h⟩
  else .error .largeAmount

/-- The bucket after a refill. -/
def refilled : Bucket :=
  { b with available := min (b.available + b.refill.amount) b.capacity }

/-- Take a token if there is one. -/
def take : Bool × Bucket :=
  if 0 < b.available then (true, { b with available := b.available - 1 }) else (false, b)

end Bucket

end StoreBench
