/-!
# Rounding to doubles

A finite double is a rational number, and an arithmetic operation on doubles is the exact rational
operation followed by rounding to 53 significant bits, ties to the even neighbour. Working on the
rational values keeps every step open to proof. Magnitudes that overflow or underflow the range of
doubles are left alone: the exponent here is unbounded.
-/

namespace StoreBench.Numeric

/-- `2 ^ k` for an exponent of either sign. -/
def twoPow (k : Int) : Rat :=
  if 0 ≤ k then (Nat.pow 2 k.toNat : Rat) else 1 / (Nat.pow 2 (-k).toNat : Rat)

/-- The exponent `k` with `2 ^ k ≤ q < 2 ^ (k + 1)`, for a positive `q`. -/
def binade (q : Rat) : Int :=
  let estimate : Int := (q.num.natAbs.log2 : Int) - (q.den.log2 : Int)
  if twoPow estimate ≤ q then estimate else estimate - 1

/-- The nearest whole number to a non-negative `q`, an exact half going to the even neighbour. -/
def roundHalfEven (q : Rat) : Int :=
  let below := q.floor
  let rest := q - below
  if rest < 1 / 2 then below
  else if 1 / 2 < rest then below + 1
  else if below % 2 = 0 then below else below + 1

/-- The nearest whole number to a non-negative `q`, an exact half going up. -/
def roundHalfUp (q : Rat) : Nat := (q + 1 / 2).floor.toNat

/-- The double nearest to a non-negative `q`. -/
def roundToDouble (q : Rat) : Rat :=
  if q ≤ 0 then 0
  else
    let unit := twoPow (binade q - 52)
    roundHalfEven (q / unit) * unit

/-- The rational value of a finite double; nothing for the infinities and the non-number. -/
def exactValue? (x : Float) : Option Rat :=
  let bits := x.toBits.toNat
  let fraction : Nat := bits % (1 <<< 52)
  let biased : Nat := (bits >>> 52) % 2048
  let sign : Rat := if bits >>> 63 = 1 then -1 else 1
  if biased = 2047 then none
  else if biased = 0 then some (sign * fraction * twoPow (-1074))
  else some (sign * ((1 <<< 52) + fraction : Nat) * twoPow (biased - 1075))

end StoreBench.Numeric
