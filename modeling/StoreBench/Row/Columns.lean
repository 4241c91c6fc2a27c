import StoreBench.Attempt
import StoreBench.Machine
import StoreBench.Row.Basic
import StoreBench.Text.Number
/-!
# The columnar row layout

A layout gives every field a fixed slot: slot 0 holds the key, and slot `i + 1` the field named by
the layout's stem followed by the number `i`. A name reaches a slot only in that exact spelling.
The number of slots has to fit a machine word, and slots that are laid out have to fit memory; a
layout without room for them faults.
-/

namespace StoreBench

open Text

/-- The number spelled by digits without superfluous leading zeros. -/
def canonicalIndex? (digits : List Char) : Option Nat :=
  match digits with
  | [] => none
  | '0' :: _ :: _ => none
  | digits => digitsValue? digits

structure ColumnLayout where
  stem : String
  fieldCount : Nat
  deriving DecidableEq

abbrev Slots := List Bytes

namespace ColumnLayout

variable (layout : ColumnLayout)

/-- The number of slots of a row, the key's included. -/
def slotCount? : Except Failure Nat :=
  if layout.fieldCount + 1 < UInt64.size then .ok (layout.fieldCount + 1) else .error .fault

/-- The memory one slot takes beside its contents, in bytes. -/
def slotSize : Nat := 24

/-- The slots of a row before any of `given` fields is written. As many fields as the layout has
take more memory than their slots, so slots for fields that are there fit. -/
def emptySlots? [Machine] (given : Nat) : Except Failure Slots := do
  let count ← layout.slotCount?
  if given < layout.fieldCount then reserve count slotSize
  return List.replicate count []

def fieldName (index : Nat) : String := layout.stem ++ toString index

/-- The slot of the field with the name. -/
def slotOf? (name : String) : Except Error Nat :=
  let stem := layout.stem.toList
  let unknown := .error (.unknownField name)
  if stem.isPrefixOf name.toList then
    match canonicalIndex? (name.toList.drop stem.length) with
    | some index => if index < layout.fieldCount then .ok (index + 1) else unknown
    | none => unknown
  else unknown

/-- Write fields into an array of slots, as `write` does. -/
def writeInto : (slots : Array Bytes) → (fields : Row) → Array Bytes × Option String
  | slots, [] => (slots, none)
  | slots, f :: fields =>
    match layout.slotOf? f.name with
    | .error _ => (slots, some f.name)
    | .ok slot => writeInto (slots.setIfInBounds slot f.value) fields

/-- Write fields into their slots one after another. The slots as far as they were written, with
the first name that has no slot, if there is one. -/
def write (slots : Slots) (fields : Row) : Slots × Option String :=
  let (slots, unknown) := layout.writeInto slots.toArray fields
  (slots.toList, unknown)

@[simp] theorem write_nil (slots : Slots) : layout.write slots [] = (slots, none) := rfl

theorem write_cons (slots : Slots) (f : Field) (fields : Row) :
    layout.write slots (f :: fields) =
      match layout.slotOf? f.name with
      | .error _ => (slots, some f.name)
      | .ok slot => layout.write (slots.set slot f.value) fields := by
  simp only [write, writeInto]
  cases layout.slotOf? f.name with
  | error => rfl
  | ok slot => simp

/-- The fields held by the slots behind the key. -/
def row (slots : Slots) : Row :=
  slots.tail.mapIdx fun index value => ⟨layout.fieldName index, value⟩

/-- The contents of the slot of a name. -/
def slotValue? (slots : Slots) (name : String) : Except Failure Bytes :=
  match layout.slotOf? name with
  | .error e => .error (.raised e)
  | .ok slot =>
    match slots[slot]? with
    | some value => .ok value
    | none => .error .fault

variable {ι : Interface}

/-- Refuse slots that are not as many as the layout has, and report it. -/
def check (slots : Slots) : Attempt ι Unit := do
  let expected ← Attempt.ofExcept layout.slotCount?
  if slots.length ≠ expected then
    Attempt.click .corrupt
    Attempt.raise (.corruptRow (.slotCount expected slots.length))

/-- Overwrite the slots of the fields. The slots are returned also when a name is unknown, written
up to that name. -/
def overlay (slots : Slots) (fields : Row) : Program ι (Except Failure Unit × Slots) := do
  match ← (layout.check slots).run with
  | .error e => return (.error e, slots)
  | .ok () =>
    match layout.write slots fields with
    | (slots, none) => return (.ok (), slots)
    | (slots, some name) => return (.error (.raised (.unknownField name)), slots)

/-- The slots after overwriting, when every name is known. -/
def overlaid (slots : Slots) (fields : Row) : Attempt ι Slots := do
  let (result, slots) ← Attempt.lift (layout.overlay slots fields)
  Attempt.ofExcept result
  return slots

/-- Lay out a key and fields; the slots of fields not given are empty. -/
def encode [Machine] (key : Bytes) (fields : Row) : Attempt ι Slots := do
  Attempt.click .encode
  let slots ← Attempt.ofExcept (layout.emptySlots? fields.length)
  layout.overlaid (slots.set 0 key) fields

/-- Every field. -/
def decode (slots : Slots) : Attempt ι Row := do
  Attempt.click .decode
  layout.check slots
  return layout.row slots

/-- The named fields, in the order wanted. -/
def select (wanted : List String) (slots : Slots) : Attempt ι Row := do
  Attempt.click .decodeFiltered
  layout.check slots
  Attempt.ofExcept (wanted.mapM fun name => do return ⟨name, ← layout.slotValue? slots name⟩)

/-- The value of one field. -/
def value (slots : Slots) (name : String) : Attempt ι Bytes := do
  layout.check slots
  Attempt.ofExcept (layout.slotValue? slots name)

end ColumnLayout

end StoreBench
