import StoreBench.Row.Basic
/-!
# Range predicates

A predicate is a list of inclusive bytewise ranges over named fields, made by pairing lower and
upper bounds by position. A row matches when every named field is present and within its range.
-/

namespace StoreBench

structure FieldRange where
  name : String
  low : Bytes
  high : Bytes

abbrev Predicate := List FieldRange

/-- Whether a value is present and within the range. -/
def FieldRange.admits (range : FieldRange) : Option Bytes → Bool
  | some value => range.low ≤ value && value ≤ range.high
  | none => false

namespace Predicate

/-- Pair bounds that are known to be equally many. -/
def pair? : (low high : Row) → Except BadArgument Predicate
  | lo :: low, hi :: high =>
    if lo.name = hi.name then do
      let rest ← pair? low high
      return ⟨lo.name, lo.value, hi.value⟩ :: rest
    else .error (.boundNames lo.name hi.name)
  | _, _ => .ok []

/-- Pair bounds by position. They have to be equally many and name the same field at each. -/
def ofBounds? (low high : Row) : Except BadArgument Predicate :=
  if low.length = high.length then pair? low high
  else .error (.boundCounts low.length high.length)

variable (p : Predicate)

def names : List String := p.map FieldRange.name

/-- Whether a row matches, its fields being looked up by name. -/
def matchesRow (row : Row) : Bool := p.all fun range => range.admits (row.value? range.name)

/-- Whether a list of values matches, each range looking at the position paired with it. -/
def matchesAt (positions : List Nat) (values : List Bytes) : Bool :=
  (p.zip positions).all fun (range, i) => range.admits values[i]?

end Predicate

end StoreBench
