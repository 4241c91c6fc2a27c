/-!
# Records in messages

A value with named parts is written as its name followed by the parts between braces; a value
without parts is written as its name alone.
-/

namespace StoreBench.Text

/-- The text of a record. -/
def record (name : String) (parts : List (String × String)) : String :=
  match parts with
  | [] => name
  | parts =>
    name ++ " \x7b " ++ ", ".intercalate (parts.map fun part => part.1 ++ ": " ++ part.2) ++ " \x7d"

def ofBool (b : Bool) : String := if b then "true" else "false"

/-- The text of a value that may be missing. -/
def ofOption (show? : α → String) : Option α → String
  | none => "None"
  | some a => "Some(" ++ show? a ++ ")"

end StoreBench.Text
