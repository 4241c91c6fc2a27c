import StoreBench.Operation
import StoreBench.Properties
import StoreBench.Row.Encoding
import StoreBench.Row.Predicate
import StoreBench.Store.KeyValue
/-!
# The schemaless format

Rows in a key-value engine, one encoded row per key. An update either reads the row, overlays it
and stores it again, or checks that there is one and leaves the rest to the engine's merge operator.
Every operation is a program over the calls of the engine, so operations of several clients can
interleave call by call.
-/

namespace StoreBench

structure SchemalessFormat where
  fieldCount : Nat
  /-- Updates are merge operands instead of whole rows. -/
  mergesUpdates : Bool
  deriving DecidableEq

namespace SchemalessFormat

def name : String := "single"

/-- The format an engine is configured for. -/
def select? (format : String) (p : Properties) (engine : String) :
    Except Misconfiguration SchemalessFormat := do
  if format ≠ name then throw (.unsupportedFormat format "key-value")
  let fieldCount ← p.fieldCount
  let mergesUpdates ← p.bool (engine ++ ".mergeupdate") false
  return ⟨fieldCount, mergesUpdates⟩

variable (f : SchemalessFormat)

/-- The wanted fields of a stored row. A row asked for as a whole has to have all its fields. -/
def decodeStored {ι : Interface} (key value : Bytes) : Selection → Attempt ι Row
  | some wanted => Attempt.ofProgram (Row.select wanted value)
  | none => do
    let row ← Attempt.ofProgram (Row.decode value)
    if row.length ≠ f.fieldCount then
      Attempt.raise (.corruptRow (.fieldCount key row.length f.fieldCount))
    return row

def read (key : Bytes) (fields : Selection) : Attempt keyValueCalls (Option Row) := do
  match ← (KeyValueCall.get key).attempt with
  | none => return none
  | some value => return some (← f.decodeStored key value fields)

def scan (start : Bytes) (count : Nat) (fields : Selection) : Attempt keyValueCalls (List Row) := do
  let entries ← KeyValueCall.scan start count
  entries.mapM fun (key, value) => f.decodeStored key value fields

/-- Read the stored row, overlay the fields and store the row again. -/
def overlayStored (key : Bytes) (fields : Row) : Attempt keyValueCalls Status := do
  match ← (KeyValueCall.get key).attempt with
  | none => return .notFound
  | some value =>
    let row ← Attempt.ofProgram (Row.decode value)
    let row ← Attempt.ofExcept ((row.overlay? fields).mapError .raised)
    let value ← Attempt.ofProgram (Row.encode row)
    (KeyValueCall.put key value).attempt
    return .ok

/-- Merge the fields into the stored row. The operator assumes a stored row, so there has to be
one. -/
def mergeUpdate (key : Bytes) (fields : Row) : Attempt keyValueCalls Status := do
  match ← (KeyValueCall.get key).attempt with
  | none => return .notFound
  | some _ =>
    let operand ← Attempt.ofProgram (Row.encode fields)
    (KeyValueCall.merge key operand).attempt
    return .ok

def update (key : Bytes) (fields : Row) : Attempt keyValueCalls Status :=
  if f.mergesUpdates then mergeUpdate key fields else overlayStored key fields

def insert (key : Bytes) (fields : Row) : Attempt keyValueCalls Status := do
  let value ← Attempt.ofProgram (Row.encode fields)
  (KeyValueCall.put key value).attempt
  return .ok

def delete (key : Bytes) : Attempt keyValueCalls Status := do
  (KeyValueCall.delete key).attempt
  return .ok

/-- The wanted fields of a stored row, if it matches a predicate. -/
def match? {ι : Interface} (predicate : Predicate) (fields : Selection) (key value : Bytes) :
    Attempt ι (Option Row) := do
  let row ← f.decodeStored key value none
  if predicate.matchesRow row then
    match fields with
    | some wanted => return some (← Attempt.ofProgram (Row.select wanted value))
    | none => return some row
  else return none

def filter (low high : Row) (fields : Selection) : Attempt keyValueCalls (List Row) := do
  let predicate ← Attempt.ofExcept
    ((Predicate.ofBounds? low high).mapError (.raised ∘ .invalidArgument))
  let entries ← (KeyValueCall.visit []).attempt
  entries.filterMapM fun (key, value) => f.match? predicate fields key value

/-- Any operation. -/
def perform : (op : Operation) → Attempt keyValueCalls op.Result
  | .read key fields => f.read key fields
  | .scan start count fields => f.scan start count fields
  | .update key fields => f.update key fields
  | .insert key fields => insert key fields
  | .delete key => delete key
  | .filter low high fields => f.filter low high fields

end SchemalessFormat

end StoreBench
