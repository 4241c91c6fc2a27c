/-!
# Number literals

The grammars in which property values and command-line arguments spell numbers: an optional sign
and ASCII digits for integers; for floating-point numbers an optional sign, digits with at most one
point and an optional decimal exponent, or one of the words for the special values. No surrounding
blanks are accepted.
-/

namespace StoreBench.Text

/-- The numeric types a literal can be read as. -/
inductive NumberType where
  | unsigned (bits : Nat)
  | signed (bits : Nat)
  | size
  | float
  deriving DecidableEq, Repr

/-- The name a message gives to the type. -/
def NumberType.name : NumberType → String
  | .unsigned bits => "u" ++ toString bits
  | .signed bits => "i" ++ toString bits
  | .size => "usize"
  | .float => "f64"

/-- The number a list of ASCII digits spells, or nothing if another character occurs. -/
def digitsValue? (digits : List Char) : Option Nat :=
  digits.foldlM (fun n c => if c.isDigit then some (10 * n + (c.toNat - '0'.toNat)) else none) 0

/-- An unsigned literal: an optional plus sign and at least one digit. -/
def unsignedLiteral? (s : List Char) : Option Nat :=
  match s with
  | [] => none
  | '+' :: [] => none
  | '+' :: digits => digitsValue? digits
  | digits => digitsValue? digits

/-- A signed literal: an optional sign and at least one digit. -/
def signedLiteral? (s : List Char) : Option Int :=
  match s with
  | '-' :: [] => none
  | '-' :: digits => (digitsValue? digits).map fun n => -(n : Int)
  | s => (unsignedLiteral? s).map Int.ofNat

/-- An unsigned literal whose value fits `bits` bits. -/
def parseUnsigned? (bits : Nat) (s : String) : Option Nat :=
  (unsignedLiteral? s.toList).filter (· < Nat.pow 2 bits)

theorem lt_of_parseUnsigned? {bits : Nat} {s : String} {n : Nat}
    (h : parseUnsigned? bits s = some n) : n < Nat.pow 2 bits := by
  simpa using (Option.filter_eq_some_iff.1 h).2

/-- A signed literal whose value fits `bits` bits in two's complement. -/
def parseSigned? (bits : Nat) (s : String) : Option Int :=
  let bound : Int := Nat.pow 2 (bits - 1)
  (signedLiteral? s.toList).filter fun n => decide (-bound ≤ n ∧ n < bound)

/-- The double nearest to `mantissa * 10 ^ exponent`. Exponents far outside the range of doubles
are settled without computing the power. -/
def nearestFloat (mantissa : Nat) (exponent : Int) : Float :=
  let digits := (Nat.toDigits 10 mantissa).length
  if mantissa = 0 then 0.0
  else if 400 < exponent + digits then 1.0 / 0.0
  else if exponent + digits < -400 then 0.0
  else Float.ofScientific mantissa (exponent < 0) exponent.natAbs

/-- The exponent part of a literal: nothing at all, or `e` and an optionally signed integer. -/
def exponentPart? (s : List Char) : Option Int :=
  match s with
  | [] => some 0
  | c :: rest => if c = 'e' ∨ c = 'E' then signedLiteral? rest else none

/-- An unsigned floating-point literal other than the special words. -/
def decimalLiteral? (s : List Char) : Option Float :=
  let whole := s.takeWhile Char.isDigit
  let rest := s.dropWhile Char.isDigit
  let (fraction, tail) := match rest with
    | '.' :: more => (more.takeWhile Char.isDigit, more.dropWhile Char.isDigit)
    | other => ([], other)
  if whole.isEmpty && fraction.isEmpty then none
  else do
    let mantissa ← digitsValue? (whole ++ fraction)
    let exponent ← exponentPart? tail
    return nearestFloat mantissa (exponent - fraction.length)

/-- An unsigned floating-point literal. -/
def magnitudeLiteral? (s : List Char) : Option Float :=
  let word := s.map Char.toLower
  if word = "inf".toList ∨ word = "infinity".toList then some (1.0 / 0.0)
  else if word = "nan".toList then some (0.0 / 0.0)
  else decimalLiteral? s

/-- A floating-point literal, rounded to the nearest double. -/
def parseFloat? (s : String) : Option Float :=
  match s.toList with
  | '-' :: rest => (magnitudeLiteral? rest).map fun x => -x
  | '+' :: rest => magnitudeLiteral? rest
  | rest => magnitudeLiteral? rest

end StoreBench.Text
