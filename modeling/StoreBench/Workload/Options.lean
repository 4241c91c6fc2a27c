import StoreBench.OperationKind
import StoreBench.Skew.DistinctOptions
/-!
# Options of a workload

The options a user sets for a workload, their defaults, and the comparison under which two option
sets count as equal: proportions and skews may differ by a thousandth.
-/

namespace StoreBench

open Skew

structure WorkloadOptions where
  /-- Records the load phase inserts. -/
  recordCount : Nat := 1000
  /-- Operations the run phase issues. -/
  operationCount : Nat := 1000
  fieldCount : Nat := 10
  /-- The length of every field but the first. -/
  fieldLength : Nat := 100
  /-- What every field name starts with. -/
  fieldStem : String := "field"
  readProportion : Float := 0.95
  updateProportion : Float := 0.05
  insertProportion : Float := 0.0
  scanProportion : Float := 0.0
  deleteProportion : Float := 0.0
  filterProportion : Float := 0.0
  maxScanLength : Nat := 100
  /-- `uniform`, `zipfian` or `scrambled`. -/
  requestDistribution : String := "uniform"
  zipfTheta : Float := 0.99
  readAllFields : Bool := false
  writeAllFields : Bool := false
  /-- Blocks in the byte pool of each worker. -/
  valuePoolSize : Nat := 1024
  seed : UInt64 := 0
  /-- The values of the first field, and the ranges that filters select. -/
  filter : DistinctOptions := {}

namespace WorkloadOptions

/-- The weight of each kind of operation, in the order in which they share the unit interval. -/
def weights (o : WorkloadOptions) : List (Float × OperationKind) :=
  [(o.readProportion, .read), (o.updateProportion, .update), (o.insertProportion, .insert),
    (o.scanProportion, .scan), (o.deleteProportion, .delete), (o.filterProportion, .filter)]

def fieldName (o : WorkloadOptions) (i : Nat) : String := o.fieldStem ++ toString i

/-- The names of all fields, in order. -/
def fieldNames (o : WorkloadOptions) : List String := (List.range o.fieldCount).map o.fieldName

/-- Equality up to a thousandth in the proportions and the skews. -/
protected def beq (a b : WorkloadOptions) : Bool :=
  a.recordCount == b.recordCount && a.operationCount == b.operationCount
    && a.fieldCount == b.fieldCount && a.fieldLength == b.fieldLength
    && a.fieldStem == b.fieldStem && approxEq a.readProportion b.readProportion
    && approxEq a.updateProportion b.updateProportion
    && approxEq a.insertProportion b.insertProportion
    && approxEq a.scanProportion b.scanProportion
    && approxEq a.deleteProportion b.deleteProportion
    && approxEq a.filterProportion b.filterProportion
    && a.maxScanLength == b.maxScanLength && a.requestDistribution == b.requestDistribution
    && approxEq a.zipfTheta b.zipfTheta && a.readAllFields == b.readAllFields
    && a.writeAllFields == b.writeAllFields && a.valuePoolSize == b.valuePoolSize
    && a.seed == b.seed && a.filter == b.filter

instance : BEq WorkloadOptions := ⟨WorkloadOptions.beq⟩

end WorkloadOptions

end StoreBench
