import StoreBench.Error
import StoreBench.Text.Blank
/-!
# File trees

A file tree is what paths are looked up in: files with their bytes, and directories with named
entries. A path is walked name by name from the root, or from the working directory if it does not
start with a slash. Empty names and single dots stay, two dots go up, and the root is its own
parent. What lies behind a file is not looked for.
-/

namespace StoreBench

inductive FileTree where
  | file (content : Bytes)
  | directory (entries : List (String × FileTree))

namespace FileTree

/-- The number of bytes from which on a path is refused as a whole. -/
def pathLimit : Nat := 4096

/-- The number of bytes a single name may have. -/
def nameLimit : Nat := 255

/-- Follow names from a node; `above` are the directories it lies in, the nearest first. -/
def walk : (above : List FileTree) → FileTree → (names : List String) → Except ReadFailure FileTree
  | _, node, [] => .ok node
  | _, file _, _ :: _ => .error .notDirectory
  | above, directory entries, name :: names =>
    if name = "" ∨ name = "." then walk above (directory entries) names
    else if name = ".." then
      match above with
      | [] => walk [] (directory entries) names
      | parent :: above => walk above parent names
    else if nameLimit < name.utf8ByteSize then .error .longName
    else match entries.lookup name with
      | some node => walk (directory entries :: above) node names
      | none => .error .notFound

/-- The names a path consists of. -/
def namesOf (path : String) : List String :=
  (Text.splitAll '/' path.toList).map String.ofList

/-- Read the file at a path, seen from the directory with the names `working`. -/
def read (root : FileTree) (working : List String) (path : String) : Except ReadFailure Bytes :=
  if path.toList.contains '\x00' then .error .zeroInName
  else if path = "" then .error .notFound
  else if pathLimit ≤ path.utf8ByteSize then .error .longName
  else
    let names := if path.toList.head? = some '/' then namesOf path else working ++ namesOf path
    match walk [] root names with
    | .ok (file content) => .ok content
    | .ok (directory _) => .error .isDirectory
    | .error e => .error e

end FileTree

end StoreBench
