/-!
# Shortest decimal text of a double

A finite double stands for every real that rounds to it. Of the decimals in that interval with the
fewest significant digits the nearest to the double is written, the larger of two equally near
ones. The search walks the decimal grids from coarse to fine in exact natural-number arithmetic:
on each grid only the two neighbours of the double can qualify.
-/

namespace StoreBench.Text

/-- The decimal `digits * 10 ^ exponent`. -/
structure Decimal where
  digits : Nat
  exponent : Int
  deriving DecidableEq, Repr

namespace Decimal

/-- A double's value `mantissa * 2 ^ exponent`, with whether its lower neighbour is only half as
far away as its upper one. -/
structure Binary where
  mantissa : Nat
  exponent : Int
  lowerIsNear : Bool
  deriving Repr

/-- The value of a double from its bits, sign apart; meant for finite doubles. -/
def Binary.ofBits (bits : UInt64) : Binary :=
  let fraction : Nat := bits.toNat % (1 <<< 52)
  let biased : Nat := (bits.toNat >>> 52) % 2048
  if biased = 0 then ⟨fraction, -1074, false⟩
  else ⟨(1 <<< 52) + fraction, (biased : Int) - 1075, fraction = 0 && biased ≠ 1⟩

/-- The neighbours of `num / den` on the grid of multiples of `10 ^ exponent` that lie between the
two bounds, all scaled by the same denominator; the nearer one, or the larger of two at the same
distance. -/
def onGrid? (num den low high : Nat) (closed : Bool) (exponent : Int) : Option Nat :=
  let up := Nat.pow 10 (-exponent).toNat
  let step := den * Nat.pow 10 exponent.toNat
  let below := num * up / step
  let inside (d : Nat) : Bool :=
    if closed then low * up ≤ d * step && d * step ≤ high * up
    else low * up < d * step && d * step < high * up
  match inside below, inside (below + 1) with
  | false, false => none
  | true, false => some below
  | false, true => some (below + 1)
  | true, true =>
    if 2 * (num * up - below * step) < step then some below else some (below + 1)

/-- The first hit on the grids with `count`, `count + 1`, … significant digits. -/
def firstHit (num den low high : Nat) (closed : Bool) (leading : Int) : (count fuel : Nat) → Decimal
  | _, 0 => ⟨0, 0⟩
  | count, fuel + 1 =>
    let exponent := leading - count + 1
    match onGrid? num den low high closed exponent with
    | some d => ⟨d, exponent⟩
    | none => firstHit num den low high closed leading (count + 1) fuel

/-- The shortest decimal that reads back as a positive finite double. -/
def shortest (x : Binary) : Decimal :=
  let scale := 1 <<< (x.exponent - 2).toNat
  let den := 1 <<< (2 - x.exponent).toNat
  let num := 4 * x.mantissa * scale
  let low := num - (if x.lowerIsNear then 1 else 2) * scale
  let high := num + 2 * scale
  let leading : Int := (Nat.toDigits 10 (num * Nat.pow 10 400 / den)).length - 401
  firstHit num den low high (x.mantissa % 2 = 0) leading 1 17

end Decimal

/-- The significant digits of a decimal, trailing zeros dropped, with the position of the point
counted from their front. -/
def significand (d : Decimal) : List Char × Int :=
  let all := Nat.toDigits 10 d.digits
  ((all.reverse.dropWhile (· = '0')).reverse, d.exponent + all.length)

def zeros (n : Nat) : List Char := List.replicate n '0'

/-- Positional notation; a whole number carries `.0` if asked to. -/
def positional (digits : List Char) (point : Int) (keepPoint : Bool) : List Char :=
  if point ≤ 0 then '0' :: '.' :: zeros point.natAbs ++ digits
  else
    let whole := point.toNat
    if digits.length ≤ whole then
      digits ++ zeros (whole - digits.length) ++ if keepPoint then ['.', '0'] else []
    else digits.take whole ++ '.' :: digits.drop whole

/-- Scientific notation with one digit before the point. -/
def scientific (digits : List Char) (point : Int) : List Char :=
  let fraction := match digits.drop 1 with
    | [] => []
    | more => '.' :: more
  digits.take 1 ++ fraction ++ 'e' :: (toString (point - 1)).toList

/-- How a double is written: always positionally, or with `.0` on whole numbers and an exponent
below `10 ^ -4` and from `10 ^ 16` on. -/
inductive FloatStyle where
  | plain
  | exact
  deriving DecidableEq, Repr

/-- The text of a double in the given style. -/
def ofFloat (style : FloatStyle) (x : Float) : String :=
  if x.isNaN then "NaN"
  else
    let bits := x.toBits
    let sign := if bits.toNat >>> 63 = 1 then "-" else ""
    if x.isInf then sign ++ "inf"
    else
      let body := match style, Decimal.Binary.ofBits bits with
        | .plain, ⟨0, _, _⟩ => ['0']
        | .exact, ⟨0, _, _⟩ => ['0', '.', '0']
        | style, value =>
          let (digits, point) := significand (Decimal.shortest value)
          match style with
          | .plain => positional digits point false
          | .exact =>
            if -3 ≤ point ∧ point ≤ 16 then positional digits point true
            else scientific digits point
      sign ++ String.ofList body

end StoreBench.Text
