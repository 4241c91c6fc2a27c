import StoreBench.Program
import StoreBench.Row.Cursor
/-!
# The schemaless row encoding

A row is encoded field by field, in order, without header or footer: the length of the name, the
name, the length of the value, the value, lengths being four little-endian bytes. Decoding takes
the whole buffer or fails; selecting decoding takes the wanted names in one pass and stops when all
are found. A merge operand is an encoded row that is merged into the stored one.
-/

namespace StoreBench

namespace Field

/-- A length-prefixed part, if the length fits four bytes. -/
def encodePart? (what : String) (part : Bytes) : Except BadArgument Bytes :=
  if part.length < UInt32.size then .ok (Bytes.ofNatLE 4 part.length ++ part)
  else .error (.longPart what part.length)

def encode? (f : Field) : Except BadArgument Bytes := do
  let name ← encodePart? "field name" (Bytes.ofText f.name)
  let value ← encodePart? "field value" f.value
  return name ++ value

/-- A field whose name and value are short enough to be encoded. -/
def Encodable (f : Field) : Prop :=
  (Bytes.ofText f.name).length < UInt32.size ∧ f.value.length < UInt32.size

theorem encodePart?_of_lt {what : String} {part : Bytes} (h : part.length < UInt32.size) :
    encodePart? what part = .ok (Bytes.ofNatLE 4 part.length ++ part) := if_pos h

theorem encode?_of_encodable {f : Field} (h : f.Encodable) :
    f.encode? = .ok (Bytes.ofNatLE 4 (Bytes.ofText f.name).length ++ Bytes.ofText f.name ++
      (Bytes.ofNatLE 4 f.value.length ++ f.value)) := by
  unfold encode?
  rw [encodePart?_of_lt h.1, encodePart?_of_lt h.2]
  rfl

end Field

namespace Row

/-- The encoding of a row. -/
def encode? : Row → Except BadArgument Bytes
  | [] => .ok []
  | f :: rest => do
    let head ← f.encode?
    let tail ← encode? rest
    return head ++ tail

/-- The field whose name and value were read up to the cursor. -/
def fieldOfParts (name value : Bytes) (c : Cursor) : Except Corruption Field :=
  match Bytes.toText? name with
  | some name => .ok ⟨name, value⟩
  | none => .error (.nameNotText c.offset)

/-- Every field from the cursor to the end of the buffer. -/
def decodeFrom (c : Cursor) : Except Corruption Row :=
  if c.isEmpty then .ok []
  else
    match _h : c.readField with
    | (.error e, _) => .error e
    | (.ok (name, value), c') => do
      let field ← fieldOfParts name value c'
      let rest ← decodeFrom c'
      return field :: rest
termination_by c.remaining
decreasing_by exact Cursor.remaining_lt_of_readField _h

/-- The fields of an encoded row. -/
def decode? (buffer : Bytes) : Except Corruption Row := decodeFrom (.start buffer)

/-- The wanted fields from the cursor on, in the order wanted, each looked for after the one
before. -/
def selectFrom (wanted : List String) (c : Cursor) : Except Corruption Row :=
  match wanted with
  | [] => .ok []
  | w :: others =>
    if c.isEmpty then .ok []
    else
      match _h : c.readField with
      | (.error e, _) => .error e
      | (.ok (name, value), c') =>
        if name = Bytes.ofText w then do
          let rest ← selectFrom others c'
          return ⟨w, value⟩ :: rest
        else selectFrom (w :: others) c'
termination_by c.remaining
decreasing_by all_goals exact Cursor.remaining_lt_of_readField _h

/-- The wanted fields of an encoded row. -/
def select? (wanted : List String) (buffer : Bytes) : Except Corruption Row :=
  selectFrom wanted (.start buffer)

variable {ι : Interface}

/-- Encode a row and report it. -/
def encode (row : Row) : Program ι (Except Error Bytes) := do
  Program.click .encode
  return row.encode?.mapError .invalidArgument

/-- Report a corrupt row. -/
def reportCorruption {α : Type} (result : Except Corruption α) : Program ι (Except Error α) :=
  match result with
  | .ok a => return .ok a
  | .error e => do
    Program.click .corrupt
    return .error (.corruptRow e)

/-- Decode a row and report it. -/
def decode (buffer : Bytes) : Program ι (Except Error Row) := do
  Program.click .decode
  reportCorruption (decode? buffer)

/-- Decode the wanted fields of a row and report it. -/
def select (wanted : List String) (buffer : Bytes) : Program ι (Except Error Row) := do
  Program.click .decodeFiltered
  reportCorruption (select? wanted buffer)

/-- Merge an encoded operand into an encoded row, an absent row counting as empty. -/
def mergeEncoded (existing : Option Bytes) (operand : Bytes) : Program ι (Except Error Bytes) := do
  Program.click .merge
  match ← decode operand with
  | .error e => return .error e
  | .ok updates =>
    match ← existing.elim (pure (.ok [])) decode with
    | .error e => return .error e
    | .ok current => encode (Row.merge current updates)

end Row

end StoreBench
