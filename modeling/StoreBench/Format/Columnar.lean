import StoreBench.Operation
import StoreBench.Properties
import StoreBench.Row.Columns
import StoreBench.Row.Predicate
import StoreBench.Store.Tuple
/-!
# The columnar format

Rows in a tuple engine, one slot per field, located by the number in the field's name. Filters look
designated fields up by position, all positions being known before a tuple is visited.
-/

namespace StoreBench

structure ColumnarFormat where
  layout : ColumnLayout
  deriving DecidableEq

namespace ColumnarFormat

def name : String := "columnar"

/-- The format an engine is configured for. -/
def select? (format : String) (p : Properties) : Except Misconfiguration ColumnarFormat := do
  if format ≠ name then throw (.unsupportedFormat format "tuple")
  return ⟨⟨p.fieldStem, ← p.fieldCount⟩⟩

variable (f : ColumnarFormat)

/-- The wanted fields of a stored tuple. -/
def decodeStored {ι : Interface} (slots : Slots) : Selection → Attempt ι Row
  | some wanted => f.layout.select wanted slots
  | none => f.layout.decode slots

def read (key : Bytes) (fields : Selection) : Attempt tupleCalls (Option Row) := do
  match ← (TupleCall.get key).attempt with
  | none => return none
  | some slots => return some (← f.decodeStored slots fields)

def scan (start : Bytes) (count : Nat) (fields : Selection) : Attempt tupleCalls (List Row) := do
  (← TupleCall.scan start count).mapM fun slots => f.decodeStored slots fields

def update (key : Bytes) (fields : Row) : Attempt tupleCalls Status := do
  match ← (TupleCall.get key).attempt with
  | none => return .notFound
  | some slots =>
    let slots ← f.layout.overlaid slots fields
    (TupleCall.put key slots).attempt
    return .ok

def insert [Machine] (key : Bytes) (fields : Row) : Attempt tupleCalls Status := do
  let slots ← f.layout.encode key fields
  (TupleCall.put key slots).attempt
  return .ok

def delete (key : Bytes) : Attempt tupleCalls Status := do
  (TupleCall.delete key).attempt
  return .ok

/-- The wanted fields of a tuple, if it matches a predicate at the positions of its fields. -/
def match? {ι : Interface} (predicate : Predicate) (positions : List Nat) (fields : Selection)
    (slots : Slots) : Attempt ι (Option Row) := do
  if predicate.matchesAt positions slots then return some (← f.decodeStored slots fields)
  else return none

def filter (low high : Row) (fields : Selection) : Attempt tupleCalls (List Row) := do
  let predicate ← Attempt.ofExcept
    ((Predicate.ofBounds? low high).mapError (.raised ∘ .invalidArgument))
  let positions ← Attempt.ofExcept ((predicate.names.mapM f.layout.slotOf?).mapError .raised)
  (← (TupleCall.visit []).attempt).filterMapM (f.match? predicate positions fields)

/-- Any operation. -/
def perform [Machine] : (op : Operation) → Attempt tupleCalls op.Result
  | .read key fields => f.read key fields
  | .scan start count fields => f.scan start count fields
  | .update key fields => f.update key fields
  | .insert key fields => f.insert key fields
  | .delete key => delete key
  | .filter low high fields => f.filter low high fields

end ColumnarFormat

end StoreBench
