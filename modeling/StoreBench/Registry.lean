import StoreBench.EngineOptions
import StoreBench.Row.Encoding
import StoreBench.SharedHandle
import StoreBench.Store.KeyValue
import StoreBench.Store.Tuple
/-!
# The engine registry

A registry owns every engine of a process. Engines are registered by name with a way to open them;
all users of a name share one handle, and so at most one open engine. Engines that were opened keep
their identity, a number, also after they are closed. The registry keeps the journal of events, the
newest first.
-/

namespace StoreBench

/-- An engine that was opened. -/
inductive Engine where
  | keyValue (engine : KeyValueEngine)
  | tuple (engine : TupleEngine)

/-- The two shapes of engine. -/
inductive EngineKind where
  | keyValue
  | tuple
  deriving DecidableEq, Repr

/-- How an engine of either shape is opened from the properties of the process. -/
inductive Opener where
  | keyValue (openEngine : Properties → Except Failure KeyValueEngine)
  | tuple (openEngine : Properties → Except Failure TupleEngine)

namespace Opener

def kind : Opener → EngineKind
  | keyValue _ => .keyValue
  | tuple _ => .tuple

def run (p : Properties) : Opener → Except Failure Engine
  | keyValue openEngine => (openEngine p).map .keyValue
  | tuple openEngine => (openEngine p).map .tuple

/-- The key-value engine in memory, merging encoded rows. Its options have to be valid. -/
def memory : Opener :=
  .keyValue fun p => do
    discard ((EngineOptions.ofProperties? p "memory").mapError (.raised ∘ .configuration))
    return .fresh "memory" (some Row.mergeEncoded)

/-- The tuple engine in memory, as wide as the configured rows and their keys. -/
def memoryTuples : Opener :=
  .tuple fun p => do
    discard ((EngineOptions.ofProperties? p "tuple").mapError (.raised ∘ .configuration))
    let fieldCount ← p.fieldCount.mapError (.raised ∘ .configuration)
    if fieldCount + 1 < UInt64.size then return .fresh "tuple" (fieldCount + 1) else throw .fault

end Opener

structure Registration where
  name : String
  opener : Opener
  handle : SharedHandle Nat

structure Registry where
  properties : Properties
  /-- In ascending order of names. -/
  registrations : List Registration
  /-- By identity. -/
  engines : List Engine
  journal : List Event

/-- A step of the process, over the registry. -/
abbrev RegistryM := StateM Registry

namespace Registry

def record (event : Event) : RegistryM Unit :=
  modify fun r => { r with journal := event :: r.journal }

def click (sensor : Sensor) : RegistryM Unit := record (.click sensor)

def log (level : LogLevel) (message : String) : RegistryM Unit := record (.log level message)

/-- Run a program without requests. -/
def runSilent {α : Type} (p : Program .silent α) : RegistryM α :=
  p.interpret record fun request => Empty.elim request

/-- A registry that knows no engine. -/
def empty (p : Properties) : Registry := ⟨p, [], [], []⟩

/-- Put a registration where its name belongs, in place of one with the same name. -/
def insertRegistration (x : Registration) : List Registration → List Registration
  | [] => [x]
  | y :: rest =>
    if x.name < y.name then x :: y :: rest
    else if x.name = y.name then x :: rest
    else y :: insertRegistration x rest

/-- Register an engine under a name. -/
def register (r : Registry) (name : String) (opener : Opener) : Registry :=
  { r with registrations := insertRegistration ⟨name, opener, .fresh name⟩ r.registrations }

/-- A registry that knows the engines in memory. -/
def standard (p : Properties) : Registry :=
  ((empty p).register "memory" .memory).register "tuple" .memoryTuples

def find? (r : Registry) (name : String) : Option Registration :=
  r.registrations.find? (·.name == name)

/-- Every name an adapter can be made for. -/
def names (r : Registry) : List String := "basic" :: r.registrations.map Registration.name

/-- Replace the handle registered under a name. -/
def setHandle (name : String) (handle : SharedHandle Nat) : RegistryM Unit :=
  modify fun r => { r with
    registrations := r.registrations.map fun x => if x.name = name then { x with handle } else x }

def setEngine (id : Nat) (engine : Engine) : RegistryM Unit :=
  modify fun r => { r with engines := r.engines.set id engine }

/-- Open the engine of a registration under the next free identity. -/
def openEngine (x : Registration) : RegistryM (Except Failure Nat) := do
  let r ← get
  match x.opener.run r.properties with
  | .error failure => return .error failure
  | .ok engine =>
    set { r with engines := r.engines ++ [engine] }
    return .ok r.engines.length

def closeEngine (id : Nat) : RegistryM (Except Failure Unit) := do
  match (← get).engines[id]? with
  | none => return .error .fault
  | some (.keyValue engine) =>
    let (result, engine) := engine.close
    setEngine id (.keyValue engine)
    return result.mapError .raised
  | some (.tuple engine) =>
    let (result, engine) := engine.close
    setEngine id (.tuple engine)
    return result.mapError .raised

/-- The answer to what a registration's handle asks. -/
def answerLifecycle (x : Registration) :
    (call : LifecycleCall Nat) → RegistryM (Except Failure call.Result)
  | .openEngine => openEngine x
  | .closeEngine id => closeEngine id

/-- Run an operation of the handle registered under a name. -/
def onHandle {α : Type} (name : String)
    (use : SharedHandle Nat → Program (lifecycle Nat) (Except Failure α × SharedHandle Nat)) :
    RegistryM (Except Failure α) := do
  match (← get).find? name with
  | none => return .error .fault
  | some x =>
    let (result, handle) ← (use x.handle).interpret record (answerLifecycle x)
    setHandle name handle
    return result

/-- Take a reference to the engine registered under a name. -/
def acquire (name : String) : RegistryM (Except Failure Nat) := onHandle name SharedHandle.acquire

/-- Drop a reference to the engine registered under a name. -/
def release (name : String) : RegistryM (Except Failure Unit) := onHandle name SharedHandle.release

/-- The answer of the key-value engine with an identity. -/
def answerKeyValue (id : Nat) (call : KeyValueCall) : RegistryM (Except Failure call.Result) := do
  match (← get).engines[id]? with
  | some (.keyValue engine) =>
    let (result, engine) ← runSilent (engine.answer call)
    setEngine id (.keyValue engine)
    return result
  | _ => return .error .fault

/-- The answer of the tuple engine with an identity. -/
def answerTuple (id : Nat) (call : TupleCall) : RegistryM (Except Failure call.Result) := do
  match (← get).engines[id]? with
  | some (.tuple engine) =>
    let (result, engine) := engine.answer call
    setEngine id (.tuple engine)
    return result
  | _ => return .error .fault

def runKeyValue {α : Type} (id : Nat) (p : Attempt keyValueCalls α) :
    RegistryM (Except Failure α) :=
  p.run.interpret record (answerKeyValue id)

def runTuple {α : Type} (id : Nat) (p : Attempt tupleCalls α) : RegistryM (Except Failure α) :=
  p.run.interpret record (answerTuple id)

end Registry

end StoreBench
