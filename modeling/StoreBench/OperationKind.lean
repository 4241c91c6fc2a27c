/-!
# Kinds of operation

The six operations a store is driven through, without their arguments.
-/

namespace StoreBench

inductive OperationKind where
  | read
  | scan
  | update
  | insert
  | delete
  | filter
  deriving DecidableEq, Repr

namespace OperationKind

/-- Every kind, in the order of the end-of-run summary. -/
def all : List OperationKind := [.read, .scan, .update, .insert, .delete, .filter]

def name : OperationKind → String
  | .read => "read"
  | .scan => "scan"
  | .update => "update"
  | .insert => "insert"
  | .delete => "delete"
  | .filter => "filter"

/-- The name in capitals, as log lines and summaries show it. -/
def title : OperationKind → String
  | .read => "READ"
  | .scan => "SCAN"
  | .update => "UPDATE"
  | .insert => "INSERT"
  | .delete => "DELETE"
  | .filter => "FILTER"

end OperationKind

end StoreBench
