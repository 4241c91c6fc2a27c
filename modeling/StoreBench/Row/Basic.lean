import StoreBench.Error
/-!
# Fields and rows

A row is the fields of a record in order, its key excluded. Names may repeat and values are
arbitrary bytes. Overlaying overwrites fields that are there and stops at the first name that is
not; merging overwrites or appends. Both write the first field that carries a name.
-/

namespace StoreBench

open Text

/-- One named attribute of a row. -/
structure Field where
  name : String
  value : Bytes
  deriving DecidableEq

abbrev Row := List Field

/-- The recoverable outcome of a write. -/
inductive Status where
  | ok
  | notFound
  deriving DecidableEq, Repr

namespace Field

/-- The form a field takes in log lines. -/
def display (f : Field) : String := f.name ++ "=\"" ++ Bytes.escape f.value ++ "\""

/-- The form that shows every byte as a number. -/
def inspect (f : Field) : String :=
  record "Field" [("name", quote f.name),
    ("value", "[" ++ ", ".intercalate (f.value.map fun b => toString b.toNat) ++ "]")]

/-- Fields are ordered by the bytes of their names, then by their values. -/
def le (a b : Field) : Bool :=
  let (na, nb) := (Bytes.ofText a.name, Bytes.ofText b.name)
  na < nb || (na == nb && a.value ≤ b.value)

end Field

namespace Row

/-- Fields in ascending order. -/
def sort (row : Row) : Row := row.mergeSort Field.le

/-- The value of the first field with the name. -/
def value? (name : String) (row : Row) : Option Bytes :=
  (row.find? (·.name == name)).map Field.value

def names (row : Row) : List String := row.map Field.name

/-- Overwrite the value of the first field with the name; nothing if there is none. -/
def set? (name : String) (value : Bytes) : Row → Option Row
  | [] => none
  | f :: rest =>
    if f.name = name then some (⟨f.name, value⟩ :: rest) else (set? name value rest).map (f :: ·)

theorem set?_eq_none_iff {name : String} {value : Bytes} {row : Row} :
    set? name value row = none ↔ name ∉ row.names := by
  induction row with
  | nil => simp [set?, names]
  | cons f rest ih =>
    by_cases h : f.name = name
    · simp [set?, names, h]
    · simp only [set?, h, if_false, Option.map_eq_none_iff, ih]
      simp [names, Ne.symm h]

/-- Overwrite fields by name, update by update. The row as far as it was updated, with the first
update name that the row lacks, if there is one. -/
def overlay : (row updates : Row) → Row × Option String
  | row, [] => (row, none)
  | row, u :: updates =>
    match row.set? u.name u.value with
    | none => (row, some u.name)
    | some row => overlay row updates

/-- Overwrite fields by name; an unknown name is an error. -/
def overlay? (row updates : Row) : Except Error Row :=
  match row.overlay updates with
  | (row, none) => .ok row
  | (_, some name) => .error (.unknownField name)

/-- Overwrite the first field with the update's name, or append the update. -/
def upsert (row : Row) (update : Field) : Row :=
  (row.set? update.name update.value).getD (row ++ [update])

/-- Overwrite fields by name, appending those the row lacks. -/
def merge (row updates : Row) : Row := updates.foldl upsert row

@[simp] theorem merge_nil (row : Row) : row.merge [] = row := rfl

@[simp] theorem merge_cons (row : Row) (u : Field) (updates : Row) :
    row.merge (u :: updates) = (row.upsert u).merge updates := rfl

end Row

end StoreBench
