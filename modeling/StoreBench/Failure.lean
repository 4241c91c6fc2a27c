/-!
# Failures

An operation without a result was refused for a stated reason, or it ran into a fault: an
arithmetic overflow, an access out of range, or a collection larger than any block of memory. After
a fault an operation has no answer at all. A collection that is only larger than the memory there is
ends the whole process.
-/

namespace StoreBench

/-- Why an operation whose refusals are an `ε` has no result. -/
inductive FailureOf (ε : Type) where
  | raised (error : ε)
  | fault
  /-- Memory ran out, and the process is gone. -/
  | exhausted
  deriving DecidableEq

/-- Give a refusal another form; the other failures stay what they are. -/
def FailureOf.map {ε δ : Type} (f : ε → δ) : FailureOf ε → FailureOf δ
  | raised error => raised (f error)
  | fault => fault
  | exhausted => exhausted

/-- A result that passes a test was reached. -/
theorem exists_ok_of_any {ε α : Type} {result : Except ε α} {test : α → Bool}
    (h : result.toOption.any test = true) : ∃ a, result = .ok a ∧ test a = true := by
  cases result with
  | error e => cases h
  | ok a => exact ⟨a, rfl, h⟩

end StoreBench
