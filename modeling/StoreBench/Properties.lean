import StoreBench.Error
import StoreBench.Text.Blank
import StoreBench.Text.Number
import Std.Data.ExtTreeMap
/-!
# Properties

A string-keyed configuration, read from lines of the form `key=value` or set key by key. Later
settings replace earlier ones, and the entries stay in order of keys. What a value means is left to
whoever reads it: reading with a type gives the default when the key is absent and an error when
the value does not parse.
-/

namespace StoreBench

open Text

structure Properties where
  settings : Std.ExtTreeMap String String := ∅

namespace Properties

def empty : Properties := {}

/-- Put a value in place of the key's old value, if there is one. -/
def set (p : Properties) (key value : String) : Properties := ⟨p.settings.insert key value⟩

def ofList (pairs : List (String × String)) : Properties :=
  pairs.foldl (fun p pair => p.set pair.1 pair.2) empty

def get? (p : Properties) (key : String) : Option String := p.settings[key]?

theorem get?_set (p : Properties) (key value other : String) :
    (p.set key value).get? other = if other = key then some value else p.get? other := by
  simp only [set, get?, Std.ExtTreeMap.getElem?_insert, Std.LawfulEqCmp.compare_eq_iff_eq,
    @eq_comm _ other]

variable (p : Properties)

def getOr (key default : String) : String := (p.get? key).getD default

def contains (key : String) : Bool := (p.get? key).isSome

def size : Nat := p.settings.size

/-- Every key with its value, in order of keys. -/
def entries : List (String × String) := p.settings.toList

/-- The key and value of a trimmed line; nothing for blank lines and comments. -/
def parseLine (number : Nat) (line : List Char) :
    Except Misconfiguration (Option (String × String)) :=
  match trim line with
  | [] => .ok none
  | '#' :: _ => .ok none
  | line =>
    match splitFirst? '=' line with
    | some (key, value) => .ok (some (String.ofList (trim key), String.ofList (trim value)))
    | none => .error (.propertyLine number (String.ofList line))

/-- Read lines into the properties, the first of them being line `number`. -/
def parseLines : (number : Nat) → List (List Char) → Properties → Except Misconfiguration Properties
  | _, [], p => .ok p
  | number, line :: lines, p =>
    match parseLine number line with
    | .error e => .error e
    | .ok none => parseLines (number + 1) lines p
    | .ok (some (key, value)) => parseLines (number + 1) lines (p.set key value)

/-- Read a text of `key=value` lines. Blank lines and lines that start with `#` are skipped. -/
def parse? (text : String) : Except Misconfiguration Properties :=
  parseLines 1 (splitAll '\n' text.toList) empty

/-- What came of reading a file: its bytes, or the reason why it could not be read. -/
abbrev FileRead := Except ReadFailure Bytes

/-- Read the properties in a file. -/
def ofFile? (path : String) (file : FileRead) : Except Misconfiguration Properties :=
  match file with
  | .error reason => .error (.unreadableFile path reason)
  | .ok bytes =>
    match Bytes.toText? bytes with
    | none => .error (.unreadableFile path .notText)
    | some text => parse? text

/-- Read a value with a parser that accepts the literals of a type. -/
def parsed {α : Type} (type : NumberType) (parser : String → Option α) (key : String)
    (default : α) : Except Misconfiguration α :=
  match p.get? key with
  | none => .ok default
  | some value =>
    match parser value with
    | some a => .ok a
    | none => .error (.badValue key value type.name)

def unsigned (bits : Nat) (key : String) (default : Nat) : Except Misconfiguration Nat :=
  p.parsed (.unsigned bits) (parseUnsigned? bits) key default

def signed (bits : Nat) (key : String) (default : Int) : Except Misconfiguration Int :=
  p.parsed (.signed bits) (parseSigned? bits) key default

/-- A count that fits a machine word. -/
def natural (key : String) (default : Nat) : Except Misconfiguration Nat :=
  p.parsed .size (parseUnsigned? 64) key default

def float (key : String) (default : Float) : Except Misconfiguration Float :=
  p.parsed .float parseFloat? key default

/-- The truth value a word stands for, in any case. -/
def parseBool? (word : String) : Option Bool :=
  match String.ofList (word.toList.map Char.toLower) with
  | "true" | "yes" | "on" | "1" => some true
  | "false" | "no" | "off" | "0" => some false
  | _ => none

def bool (key : String) (default : Bool) : Except Misconfiguration Bool :=
  match p.get? key with
  | none => .ok default
  | some value =>
    match parseBool? value with
    | some b => .ok b
    | none => .error (.notBoolean key value)

/-- The key of the number of fields in a row. -/
def fieldCountKey : String := "fieldcount"

/-- The key of what every field name starts with. -/
def fieldStemKey : String := "fieldnameprefix"

/-- The number of fields in a row, ten unless configured. -/
def fieldCount : Except Misconfiguration Nat := p.natural fieldCountKey 10

/-- What every field name starts with, `field` unless configured. -/
def fieldStem : String := p.getOr fieldStemKey "field"

end Properties

end StoreBench
