import StoreBench.Workload.Basic
/-!
# Clients

A client works through a bounded number of tasks on one adapter. It initializes the adapter, then
before each task looks at the flag its mode listens to and takes a token if it is paced, and cleans
the adapter up at the end. The first error ends it at once. Whatever happens, it counts its latch
down once, as the last thing it does.
-/

namespace StoreBench

/-- What the tasks of a client are, and when it stops early. -/
inductive Mode where
  /-- Insert records. -/
  | load
  /-- Issue the transactional mix. -/
  | run
  /-- Issue analytic operations until the time limit is reached. -/
  | analytic
  /-- Issue the transactional mix until every analytic client is done. -/
  | transactional
  deriving DecidableEq, Repr

/-- Flags that others raise while a client runs. -/
inductive Flag where
  | analyticDone
  | timeLimit
  deriving DecidableEq, Repr

namespace Mode

def task : Mode → Task
  | load => .insert
  | run => .transaction
  | analytic => .analytic
  | transactional => .transaction

/-- The flag at which a client of the mode stops. -/
def flag? : Mode → Option Flag
  | load => none
  | run => none
  | analytic => some .timeLimit
  | transactional => some .analyticDone

def title : Mode → String
  | load => "Load"
  | run => "Run"
  | analytic => "Analytic"
  | transactional => "Transactional"

end Mode

/-- What a client asks for. Performing a task hands the worker over and gets it back. -/
inductive ClientCall where
  | initAdapter
  | perform (task : Task) (worker : Worker)
  | poll (flag : Flag)
  | takeToken
  | cleanAdapter
  | countDown

abbrev ClientCall.Answer : ClientCall → Type
  | initAdapter => Except Failure Unit
  | perform .. => Except Failure Bool × Worker
  | poll _ => Bool
  | takeToken => Unit
  | cleanAdapter => Except Failure Unit
  | countDown => Unit

abbrev clientCalls : Interface := ⟨ClientCall, ClientCall.Answer⟩

structure Client where
  mode : Mode
  /-- The number of tasks. -/
  ops : Nat
  /-- Initialize the adapter before the first task. -/
  initializes : Bool := true
  /-- Clean the adapter up after the last task. -/
  cleansUp : Bool := true
  /-- Take a token before each task. -/
  paced : Bool := false
  seed : UInt64 := 0
  valuePoolSize : Nat := 1024

namespace Client

/-- Make a request that cannot fail. -/
def ask (call : ClientCall) : Attempt clientCalls call.Answer :=
  Attempt.lift (Program.call (ι := clientCalls) call)

/-- Initialize the adapter. -/
def initAdapter : Attempt clientCalls Unit := do Attempt.ofExcept (← ask .initAdapter)

/-- Clean the adapter up. -/
def cleanAdapter : Attempt clientCalls Unit := do Attempt.ofExcept (← ask .cleanAdapter)

/-- Perform a task: whether it succeeded, and the worker after it. -/
def perform (task : Task) (worker : Worker) : Attempt clientCalls (Bool × Worker) := do
  let (result, worker) ← ask (.perform task worker)
  return (← Attempt.ofExcept result, worker)

variable [Machine] (c : Client)

/-- Whether the flag the client listens to is raised. -/
def shouldStop : Attempt clientCalls Bool :=
  match c.mode.flag? with
  | none => return false
  | some flag => ask (.poll flag)

/-- Perform tasks, `done` of them being behind the client: the number done at the end. -/
def work : (remaining done : Nat) → Worker → Attempt clientCalls Nat
  | 0, done, _ => return done
  | remaining + 1, done, worker => do
    if ← c.shouldStop then
      Attempt.click .stoppedEarly
      return done
    if c.paced then ask .takeToken
    let (ok, worker) ← perform c.mode.task worker
    Attempt.click .clientOperation
    if !ok then Attempt.click .clientNotOk
    work remaining (done + 1) worker

/-- Everything but the latch. -/
def session : Attempt clientCalls Nat := do
  let worker ← Attempt.ofExcept (Worker.ofSeed? c.seed c.valuePoolSize)
  if c.initializes then initAdapter
  let done ← c.work c.ops 0 worker
  if c.cleansUp then cleanAdapter
  return done

/-- Run the client: the number of tasks it performed. -/
def run : Program clientCalls (Except Failure Nat) := do
  let result ← c.session.run
  match result with
  | .error .fault | .error .exhausted => return result
  | _ =>
    Program.call (ι := clientCalls) ClientCall.countDown
    return result

/-- Run the client on a thread of its own, whose error ends the process. -/
def runDetached : Program clientCalls (Except Failure Nat) := do
  let result ← c.run
  if let .error (.raised error) := result then
    Program.click .clientFatal
    Program.log .error (c.mode.title ++ " client failed: " ++ error.message)
  return result

end Client

end StoreBench
