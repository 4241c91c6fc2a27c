import StoreBench.OperationKind
import StoreBench.Row.Basic
/-!
# Operations

The operations a store is driven through, with their arguments and the type of their results.
-/

namespace StoreBench

/-- The fields asked for; nothing means every field. -/
abbrev Selection := Option (List String)

inductive Operation where
  | read (key : Bytes) (fields : Selection)
  | scan (start : Bytes) (count : Nat) (fields : Selection)
  | update (key : Bytes) (fields : Row)
  | insert (key : Bytes) (fields : Row)
  | delete (key : Bytes)
  | filter (low high : Row) (fields : Selection)

namespace Operation

def kind : Operation → OperationKind
  | read .. => .read
  | scan .. => .scan
  | update .. => .update
  | insert .. => .insert
  | delete .. => .delete
  | filter .. => .filter

/-- What an operation returns when it succeeds. -/
abbrev Result : Operation → Type
  | read .. => Option Row
  | scan .. => List Row
  | update .. => Status
  | insert .. => Status
  | delete .. => Status
  | filter .. => List Row

/-- Whether a result counts as a success: a found row, a done write, any list of rows. -/
def succeeded : (op : Operation) → op.Result → Bool
  | read .., row => row.isSome
  | scan .., _ => true
  | update .., status => status == .ok
  | insert .., status => status == .ok
  | delete .., status => status == .ok
  | filter .., _ => true

end Operation

end StoreBench
