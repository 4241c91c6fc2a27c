import StoreBench.CommandLine.Setting
import StoreBench.Workload.Options
/-!
# Options as settings

The options of pools and workloads under the names by which a command line sets them.
-/

namespace StoreBench

open CommandLine

namespace Skew.DistinctOptions

def settings : List (Setting DistinctOptions) := [
  ⟨"num-distinct", .number 64 (·.numDistinct) fun n o => { o with numDistinct := n }⟩,
  ⟨"length-mode", .text (·.lengthMode) fun s o => { o with lengthMode := s }⟩,
  ⟨"value-length", .number 32 (·.valueLength) fun n o => { o with valueLength := n }⟩,
  ⟨"value-min-length", .number 32 (·.valueMinLength) fun n o => { o with valueMinLength := n }⟩,
  ⟨"value-max-length", .number 32 (·.valueMaxLength) fun n o => { o with valueMaxLength := n }⟩,
  ⟨"selection-rate", .decimal (·.selectionRate) fun x o => { o with selectionRate := x }⟩,
  ⟨"rank-mode", .text (·.rankMode) fun s o => { o with rankMode := s }⟩,
  ⟨"zipf-theta", .decimal (·.zipfTheta) fun x o => { o with zipfTheta := x }⟩,
  ⟨"zipfian-ranges", .flag (·.zipfianRanges) fun b o => { o with zipfianRanges := b }⟩,
  ⟨"seed", .number 64 (·.seed.toNat) fun n o => { o with seed := UInt64.ofNat n }⟩]

end Skew.DistinctOptions

namespace WorkloadOptions

/-- The settings of a workload other than those of its distinct values. -/
def ownSettings : List (Setting WorkloadOptions) := [
  ⟨"record-count", .number 64 (·.recordCount) fun n o => { o with recordCount := n }⟩,
  ⟨"operation-count", .number 64 (·.operationCount) fun n o => { o with operationCount := n }⟩,
  ⟨"field-count", .number 64 (·.fieldCount) fun n o => { o with fieldCount := n }⟩,
  ⟨"field-length", .number 64 (·.fieldLength) fun n o => { o with fieldLength := n }⟩,
  ⟨"field-name-prefix", .text (·.fieldStem) fun s o => { o with fieldStem := s }⟩,
  ⟨"read-proportion", .decimal (·.readProportion) fun x o => { o with readProportion := x }⟩,
  ⟨"update-proportion", .decimal (·.updateProportion) fun x o => { o with updateProportion := x }⟩,
  ⟨"insert-proportion", .decimal (·.insertProportion) fun x o => { o with insertProportion := x }⟩,
  ⟨"scan-proportion", .decimal (·.scanProportion) fun x o => { o with scanProportion := x }⟩,
  ⟨"delete-proportion", .decimal (·.deleteProportion) fun x o => { o with deleteProportion := x }⟩,
  ⟨"filter-proportion", .decimal (·.filterProportion) fun x o => { o with filterProportion := x }⟩,
  ⟨"max-scan-length", .number 64 (·.maxScanLength) fun n o => { o with maxScanLength := n }⟩,
  ⟨"request-distribution",
    .text (·.requestDistribution) fun s o => { o with requestDistribution := s }⟩,
  ⟨"zipf-theta", .decimal (·.zipfTheta) fun x o => { o with zipfTheta := x }⟩,
  ⟨"read-all-fields", .flag (·.readAllFields) fun b o => { o with readAllFields := b }⟩,
  ⟨"write-all-fields", .flag (·.writeAllFields) fun b o => { o with writeAllFields := b }⟩,
  ⟨"value-pool-size", .number 64 (·.valuePoolSize) fun n o => { o with valuePoolSize := n }⟩,
  ⟨"seed", .number 64 (·.seed.toNat) fun n o => { o with seed := UInt64.ofNat n }⟩]

def settings : List (Setting WorkloadOptions) :=
  ownSettings ++ Setting.nest "filter" (·.filter) (fun f o => { o with filter := f })
    Skew.DistinctOptions.settings

end WorkloadOptions

end StoreBench
