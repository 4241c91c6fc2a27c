import StoreBench.Attempt
import StoreBench.Operation
/-!
# Measured operations

A measured store observes the latency of every operation and counts it as done or failed, and
passes its result on. An operation is done when its result counts as a success.
-/

namespace StoreBench

/-- The interface of a store: its operations. -/
abbrev storeCalls : Interface := ⟨Operation, fun op => Except Failure op.Result⟩

/-- Whether the outcome of an operation is a success. -/
def Operation.done (op : Operation) : Except Failure op.Result → Bool
  | .ok result => op.succeeded result
  | .error _ => false

namespace Measured

/-- The sensors that an outcome moves. Without an answer there are none. -/
def sensors (op : Operation) : Except Failure op.Result → List Sensor
  | .error .fault | .error .exhausted => []
  | outcome =>
    [.latency op.kind, if op.done outcome then .measuredOk op.kind else .measuredFailed op.kind]

/-- Perform an operation and measure it. -/
def perform (op : Operation) : Program storeCalls (Except Failure op.Result) := do
  let outcome ← Program.call (ι := storeCalls) op
  (sensors op outcome).forM Program.click
  return outcome

/-- One line of the end-of-run summary. -/
structure Line where
  kind : OperationKind
  done : Nat
  failed : Nat
  deriving DecidableEq, Repr

/-- The operations of each kind that the events tell of. -/
def summary (events : List Event) : List Line :=
  OperationKind.all.map fun kind =>
    ⟨kind, Event.clicks (.measuredOk kind) events, Event.clicks (.measuredFailed kind) events⟩

end Measured

end StoreBench
