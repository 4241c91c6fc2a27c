import StoreBench.Format.Columnar
import StoreBench.Format.Schemaless
import StoreBench.Registry
/-!
# Adapters

An adapter is one client's view of a shared engine. Initializing it selects the row format the
engine is configured for and takes a reference on the shared handle; cleaning up drops the
reference; operations work in between and go straight to the format. The basic adapter stores
nothing and logs every operation.
-/

namespace StoreBench

/-- A reference to an engine with the format its rows have. -/
inductive Binding where
  | keyValue (engine : Nat) (format : SchemalessFormat)
  | tuple (engine : Nat) (format : ColumnarFormat)
  deriving DecidableEq

def Binding.formatName : Binding → String
  | keyValue .. => SchemalessFormat.name
  | tuple .. => ColumnarFormat.name

/-- A row format, before an engine is at hand. -/
inductive Format where
  | schemaless (format : SchemalessFormat)
  | columnar (format : ColumnarFormat)
  deriving DecidableEq

namespace Format

/-- The format used when none is configured. -/
def defaultName : EngineKind → String
  | .keyValue => SchemalessFormat.name
  | .tuple => ColumnarFormat.name

/-- The format of a name, for an engine of a kind. -/
def select? (kind : EngineKind) (format : String) (p : Properties) (engine : String) :
    Except Misconfiguration Format :=
  match kind with
  | .keyValue => (SchemalessFormat.select? format p engine).map schemaless
  | .tuple => (ColumnarFormat.select? format p).map columnar

def name : Format → String
  | schemaless _ => SchemalessFormat.name
  | columnar _ => ColumnarFormat.name

def bind (engine : Nat) : Format → Binding
  | schemaless format => .keyValue engine format
  | columnar format => .tuple engine format

end Format

/-- An adapter for the engine registered as `handle`, configured under `name`. -/
structure EngineAdapter where
  name : String
  handle : String
  kind : EngineKind
  binding : Option Binding

namespace EngineAdapter

variable (a : EngineAdapter)

/-- Count a failure that is an error. -/
def counted {α : Type} (result : Except Failure α) : RegistryM (Except Failure α) := do
  match result with
  | .error (.raised _) => Registry.click .adapterError
  | _ => pure ()
  return result

def refuse {α : Type} (cause : Misconfiguration) : RegistryM (Except Failure α) :=
  counted (.error (.raised (.configuration cause)))

/-- The format the adapter is configured for. -/
def configuredFormat? (p : Properties) : Except Misconfiguration Format :=
  Format.select? a.kind (p.getOr (a.name ++ ".format") (Format.defaultName a.kind)) p a.name

/-- Select the format and take a reference to the engine. -/
def init : RegistryM (Except Failure Unit × EngineAdapter) := do
  if a.binding.isSome then return (← refuse (.initializedTwice a.name), a)
  match a.configuredFormat? (← get).properties with
  | .error cause => return (← refuse cause, a)
  | .ok format =>
    match ← counted (← Registry.acquire a.handle) with
    | .error failure => return (.error failure, a)
    | .ok engine =>
      Registry.log .debug (a.name ++ " adapter initialized with " ++ format.name ++ " format")
      Registry.click .adapterInit
      return (.ok (), { a with binding := some (format.bind engine) })

/-- Drop the reference to the engine. -/
def cleanup : RegistryM (Except Failure Unit × EngineAdapter) := do
  if a.binding.isNone then return (← refuse (.cleanedUpWithoutInit a.name), a)
  Registry.click .adapterCleanup
  return (← counted (← Registry.release a.handle), { a with binding := none })

/-- Drop the reference to the engine of an adapter that goes away without cleanup. -/
def abandon : RegistryM Unit := do
  if a.binding.isSome then
    Registry.log .warn (a.name ++ " adapter dropped without cleanup")
    match ← Registry.release a.handle with
    | .error (.raised error) =>
      Registry.log .error
        (a.name ++ " adapter could not release its engine: " ++ error.message)
    | _ => pure ()

/-- Perform an operation on the engine of a binding. -/
def performOn [Machine] (op : Operation) : Binding → RegistryM (Except Failure op.Result)
  | .keyValue engine format => Registry.runKeyValue engine (format.perform op)
  | .tuple engine format => Registry.runTuple engine (format.perform op)

/-- The sensor of a result that names no record. -/
def notFoundSensor? : (op : Operation) → op.Result → Option Sensor
  | .read .., none => some .readNotFound
  | .update .., .notFound => some .updateNotFound
  | _, _ => none

def perform [Machine] (op : Operation) : RegistryM (Except Failure op.Result) := do
  Registry.click (.adapterOperation op.kind)
  match a.binding with
  | none => refuse (.usedOutside a.name)
  | some binding =>
    let result ← counted (← performOn op binding)
    match result with
    | .ok value => (notFoundSensor? op value).forM Registry.click
    | .error _ => pure ()
    return result

end EngineAdapter

/-- The adapter that stores nothing. -/
structure BasicAdapter where
  initialized : Bool
  deriving DecidableEq

namespace BasicAdapter

variable (a : BasicAdapter)

def refuse {α : Type} (cause : Misconfiguration) : Except Failure α :=
  .error (.raised (.configuration cause))

def init : RegistryM (Except Failure Unit × BasicAdapter) := do
  if a.initialized then return (refuse (.initializedTwice "basic"), a)
  Registry.log .info "basic init"
  return (.ok (), ⟨true⟩)

def cleanup : RegistryM (Except Failure Unit × BasicAdapter) := do
  if !a.initialized then return (refuse (.cleanedUpWithoutInit "basic"), a)
  Registry.log .info "basic cleanup"
  return (.ok (), ⟨false⟩)

def showSelection : Selection → String
  | none => "<all fields>"
  | some names => "[" ++ " ".intercalate names ++ "]"

def showRow (row : Row) : String := "[ " ++ " ".intercalate (row.map Field.display) ++ " ]"

/-- The arguments of an operation, as they are logged. -/
def showArguments : Operation → String
  | .read key fields => Bytes.escape key ++ " " ++ showSelection fields
  | .scan start count fields =>
    Bytes.escape start ++ " " ++ toString count ++ " " ++ showSelection fields
  | .update key fields => Bytes.escape key ++ " " ++ showRow fields
  | .insert key fields => Bytes.escape key ++ " " ++ showRow fields
  | .delete key => Bytes.escape key
  | .filter low high fields => showRow low ++ " " ++ showRow high ++ " " ++ showSelection fields

/-- What every operation returns: nothing is found and every write succeeds. -/
def emptyResult : (op : Operation) → op.Result
  | .read .. => (none : Option Row)
  | .scan .. => ([] : List Row)
  | .update .. => Status.ok
  | .insert .. => Status.ok
  | .delete .. => Status.ok
  | .filter .. => ([] : List Row)

def perform (op : Operation) : RegistryM (Except Failure op.Result) := do
  if a.initialized then
    Registry.log .info (op.kind.title ++ " " ++ showArguments op)
    return .ok (emptyResult op)
  else return refuse (.basicOutside op.kind.name)

end BasicAdapter

inductive Adapter where
  | basic (adapter : BasicAdapter)
  | engine (adapter : EngineAdapter)

namespace Adapter

/-- Make an uninitialized adapter for the engine of a name. -/
def create (name : String) : RegistryM (Except Failure Adapter) := do
  if name = "basic" then
    Registry.log .debug "creating basic adapter"
    return .ok (.basic ⟨false⟩)
  match (← get).find? name with
  | none =>
    return .error (.raised (.configuration (.unknownAdapter name (← get).names)))
  | some x =>
    let kind := x.opener.kind
    let shape := match kind with
      | .keyValue => "key-value"
      | .tuple => "tuple"
    Registry.log .debug ("creating " ++ shape ++ " adapter for " ++ name)
    return .ok (.engine ⟨name, name, kind, none⟩)

def init : Adapter → RegistryM (Except Failure Unit × Adapter)
  | basic a => do
    let (result, a) ← a.init
    return (result, .basic a)
  | engine a => do
    let (result, a) ← a.init
    return (result, .engine a)

def cleanup : Adapter → RegistryM (Except Failure Unit × Adapter)
  | basic a => do
    let (result, a) ← a.cleanup
    return (result, .basic a)
  | engine a => do
    let (result, a) ← a.cleanup
    return (result, .engine a)

def perform [Machine] (op : Operation) : Adapter → RegistryM (Except Failure op.Result)
  | basic a => a.perform op
  | engine a => a.perform op

/-- The adapter goes away. -/
def abandon : Adapter → RegistryM Unit
  | basic _ => pure ()
  | engine a => a.abandon

end Adapter

end StoreBench
