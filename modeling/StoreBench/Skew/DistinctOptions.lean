import StoreBench.Skew.DistinctPool
/-!
# Options of a distinct pool

The options a user sets for a pool of distinct values, their defaults, and the comparison under
which two option sets count as equal: rates and skews may differ by a thousandth.
-/

namespace StoreBench.Skew

open StoreBench.Random

structure DistinctOptions where
  numDistinct : Nat := 1000
  /-- `constant` or `uniform`. -/
  lengthMode : String := "constant"
  valueLength : Nat := 16
  valueMinLength : Nat := 8
  valueMaxLength : Nat := 24
  selectionRate : Float := 0.01
  /-- `uniform`, `zipfian` or `scrambled`. -/
  rankMode : String := "uniform"
  zipfTheta : Float := 0.99
  zipfianRanges : Bool := false
  seed : UInt64 := 0

/-- Whether `right` lies within a thousandth of `left`. -/
def approxEq (left right : Float) : Bool := left * 0.999 ≤ right && right ≤ left * 1.001

namespace DistinctOptions

def lengthChooser? (o : DistinctOptions) : Except Error LengthChooser :=
  match o.lengthMode with
  | "constant" => .ok (.constant o.valueLength)
  | "uniform" => LengthChooser.uniform? o.valueMinLength o.valueMaxLength
  | mode => .error (.invalid (.unknownLengthMode mode))

/-- Build the pool the options describe. -/
def build {ι : Interface} (o : DistinctOptions) : Program ι (Except Error DistinctPool) := do
  match o.lengthChooser? with
  | .error e => return .error e
  | .ok length =>
    match RankChooser.ofMode? o.rankMode o.numDistinct o.zipfTheta with
    | .error e => return .error e
    | .ok chooser =>
      let result ← DistinctPool.build o.numDistinct length o.selectionRate (some chooser)
        o.zipfianRanges (Stream.ofSeed o.seed)
      return result.map Prod.fst

/-- Equality up to a thousandth in the selection rate and the skew. -/
protected def beq (a b : DistinctOptions) : Bool :=
  a.numDistinct == b.numDistinct && a.lengthMode == b.lengthMode
    && a.valueLength == b.valueLength && a.valueMinLength == b.valueMinLength
    && a.valueMaxLength == b.valueMaxLength && approxEq a.selectionRate b.selectionRate
    && a.rankMode == b.rankMode && approxEq a.zipfTheta b.zipfTheta
    && a.zipfianRanges == b.zipfianRanges && a.seed == b.seed

instance : BEq DistinctOptions := ⟨DistinctOptions.beq⟩

end DistinctOptions

end StoreBench.Skew
