import StoreBench.Attempt
import StoreBench.SortedMap
/-!
# Key-value engines

A key-value engine holds one opaque byte string per key, in memory and in key order. Its calls are
requests of an interface, each of them atomic. A call on a closed engine fails; merging takes a
merge operator; closing empties the engine, and closing again fails.
-/

namespace StoreBench

inductive KeyValueCall where
  | get (key : Bytes)
  | put (key value : Bytes)
  | merge (key operand : Bytes)
  | delete (key : Bytes)
  | visit (start : Bytes)

/-- What a call returns when it succeeds. -/
abbrev KeyValueCall.Result : KeyValueCall → Type
  | get _ => Option Bytes
  | put .. => Unit
  | merge .. => Unit
  | delete _ => Unit
  | visit _ => List (Bytes × Bytes)

/-- The calls of a key-value engine. -/
abbrev keyValueCalls : Interface := ⟨KeyValueCall, fun call => Except Failure call.Result⟩

/-- Combines the value under a key, if there is one, with a merge operand. -/
abbrev MergeOperator := Option Bytes → Bytes → Program .silent (Except Error Bytes)

structure KeyValueEngine where
  name : String
  mergeOperator : Option MergeOperator
  entries : SortedMap Bytes
  closed : Bool

namespace KeyValueEngine

/-- An open engine without entries. -/
def fresh (name : String) (mergeOperator : Option MergeOperator) : KeyValueEngine :=
  ⟨name, mergeOperator, ∅, false⟩

variable (e : KeyValueEngine)

/-- Store a value under a key. -/
def store (key value : Bytes) : KeyValueEngine := { e with entries := e.entries.insert key value }

/-- Remove a key. -/
def drop (key : Bytes) : KeyValueEngine := { e with entries := e.entries.erase key }

def close : Except Error Unit × KeyValueEngine :=
  if e.closed then (.error (.engine (.closedTwice e.name)), e)
  else (.ok (), { e with entries := ∅, closed := true })

/-- Combine the value under a key with an operand. -/
def mergeInto (key operand : Bytes) : Program .silent (Except Failure Unit × KeyValueEngine) :=
  match e.mergeOperator with
  | none => return (.error (.raised (.engine (.noMergeOperator e.name))), e)
  | some operator => do
    match ← operator (e.entries[key]?) operand with
    | .ok merged => return (.ok (), e.store key merged)
    | .error error => return (.error (.raised error), e)

/-- The answer to a call and the engine after it. -/
def answer (call : KeyValueCall) : Program .silent (Except Failure call.Result × KeyValueEngine) :=
  if e.closed then return (.error (.raised (.engine (.closed e.name))), e)
  else
    match call with
    | .get key => return (.ok (e.entries[key]?), e)
    | .put key value => return (.ok (), e.store key value)
    | .merge key operand => e.mergeInto key operand
    | .delete key => return (.ok (), e.drop key)
    | .visit start => return (.ok (e.entries.entriesFrom start), e)

end KeyValueEngine

namespace KeyValueCall

/-- Make a call. -/
def attempt (call : KeyValueCall) : Attempt keyValueCalls call.Result :=
  ExceptT.mk (Program.call (ι := keyValueCalls) call)

/-- The first `limit` entries with keys from `start` on. Nothing is asked of the engine when the
limit is zero. -/
def scan (start : Bytes) (limit : Nat) : Attempt keyValueCalls (List (Bytes × Bytes)) :=
  if limit = 0 then return [] else do
    return (← attempt (.visit start)).take limit

end KeyValueCall

end StoreBench
