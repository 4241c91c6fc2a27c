import StoreBench.Adapter
import StoreBench.Client.Basic
import StoreBench.Client.Latch
import StoreBench.Client.Measured
import StoreBench.Pacing.RateLimiter
/-!
# Sessions

A session is one client with everything it touches: the registry with the shared engines, the
numbering of records, its own adapter, its latch and its limiter. A client runs in a session to its
end while nobody else does anything, so the flags stay as they are.
-/

namespace StoreBench

structure Session where
  registry : Registry
  numbers : Numbering
  adapter : Adapter
  latch : Latch
  limiter : Option RateLimiter
  raised : List Flag

abbrev SessionM := StateM Session

namespace Session

/-- Run a step of the process. -/
def inRegistry {α : Type} (step : RegistryM α) : SessionM α := fun s =>
  let (a, registry) := step s.registry
  (a, { s with registry })

def record (event : Event) : SessionM Unit := inRegistry (Registry.record event)

/-- Run a program without requests. -/
def runSilent {α : Type} (p : Program .silent α) : SessionM α := inRegistry (Registry.runSilent p)

/-- Take the adapter through a step of its life. -/
def transition (step : Adapter → RegistryM (Except Failure Unit × Adapter)) :
    SessionM (Except Failure Unit) := do
  let (result, adapter) ← inRegistry (step (← get).adapter)
  modify fun s => { s with adapter }
  return result

/-- Perform an operation on the adapter. -/
def perform [Machine] (op : Operation) : SessionM (Except Failure op.Result) := do
  inRegistry ((← get).adapter.perform op)

/-- Perform an operation on the adapter and measure it. -/
def performMeasured [Machine] (op : Operation) : SessionM (Except Failure op.Result) :=
  (Measured.perform op).interpret record perform

/-- Answer a workload whose operations are performed in a given way. -/
def answerWorkload (perform : (op : Operation) → SessionM (Except Failure op.Result)) :
    (call : WorkloadCall) → SessionM call.Answer
  | .takeNumber => modifyGet fun s =>
    let (number, numbers) := s.numbers.take
    (number, { s with numbers })
  | .perform op => perform op

def takeToken : SessionM Unit := do
  if let some limiter := (← get).limiter then
    let limiter ← runSilent limiter.consume
    modify fun s => { s with limiter := some limiter }

def answerClient [Machine] (w : Workload) : (call : ClientCall) → SessionM call.Answer
  | .initAdapter => transition Adapter.init
  | .perform task worker =>
    (w.run task worker).interpret record (answerWorkload performMeasured)
  | .poll flag => return (← get).raised.contains flag
  | .takeToken => takeToken
  | .cleanAdapter => transition Adapter.cleanup
  | .countDown => modify fun s => { s with latch := s.latch.countDown }

/-- Run a client's program to its end. -/
def run [Machine] {α : Type} (w : Workload) (p : Program clientCalls α) : SessionM α :=
  p.interpret record (answerClient w)

end Session

end StoreBench
