import StoreBench.Attempt
import StoreBench.SortedMap
/-!
# Tuple engines

A tuple engine holds a fixed number of byte strings per key, the key itself in slot 0. A tuple of
another width is refused, and so is one whose slot 0 is not its key; an engine of width zero has no
slot 0 to compare, so storing into it faults.
-/

namespace StoreBench

inductive TupleCall where
  | get (key : Bytes)
  | put (key : Bytes) (slots : List Bytes)
  | delete (key : Bytes)
  | visit (start : Bytes)

/-- What a call returns when it succeeds. -/
abbrev TupleCall.Result : TupleCall → Type
  | get _ => Option (List Bytes)
  | put .. => Unit
  | delete _ => Unit
  | visit _ => List (List Bytes)

/-- The calls of a tuple engine. -/
abbrev tupleCalls : Interface := ⟨TupleCall, fun call => Except Failure call.Result⟩

structure TupleEngine where
  name : String
  width : Nat
  tuples : SortedMap (List Bytes)
  closed : Bool

namespace TupleEngine

/-- An open engine without tuples. -/
def fresh (name : String) (width : Nat) : TupleEngine := ⟨name, width, ∅, false⟩

variable (e : TupleEngine)

def close : Except Error Unit × TupleEngine :=
  if e.closed then (.error (.engine (.closedTwice e.name)), e)
  else (.ok (), { e with tuples := ∅, closed := true })

/-- Whether a tuple may be stored under a key. -/
def accepts (key : Bytes) (slots : List Bytes) : Except Failure Unit :=
  if slots.length ≠ e.width then
    .error (.raised (.invalidArgument (.tupleWidth e.name slots.length e.width)))
  else
    match slots with
    | [] => .error .fault
    | first :: _ =>
      if first = key then .ok () else .error (.raised (.invalidArgument (.keySlot e.name)))

/-- The answer to a call and the engine after it. -/
def answer (call : TupleCall) : Except Failure call.Result × TupleEngine :=
  if e.closed then (.error (.raised (.engine (.closed e.name))), e)
  else
    match call with
    | .get key => (.ok (e.tuples[key]?), e)
    | .put key slots =>
      match e.accepts key slots with
      | .error failure => (.error failure, e)
      | .ok () => (.ok (), { e with tuples := e.tuples.insert key slots })
    | .delete key => (.ok (), { e with tuples := e.tuples.erase key })
    | .visit start => (.ok ((e.tuples.entriesFrom start).map Prod.snd), e)

end TupleEngine

namespace TupleCall

/-- Make a call. -/
def attempt (call : TupleCall) : Attempt tupleCalls call.Result :=
  ExceptT.mk (Program.call (ι := tupleCalls) call)

/-- The first `limit` tuples with keys from `start` on. -/
def scan (start : Bytes) (limit : Nat) : Attempt tupleCalls (List (List Bytes)) :=
  if limit = 0 then return [] else do
    return (← attempt (.visit start)).take limit

end TupleCall

end StoreBench
