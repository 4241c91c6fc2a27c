import StoreBench.Numeric.Rounding
import StoreBench.Program
import StoreBench.Skew.DistinctValues
import StoreBench.Skew.Rank
/-!
# Pools of distinct values

A distinct pool is a sorted, immutable set of values. Single values are picked by a rank chooser,
and ranges cover a chosen fraction of the pool: a window at a uniform position, or always the tail
whose Zipfian mass reaches the fraction. The type keeps every index it hands out in range. Window
bounds are computed on the exact values of the doubles involved, rounding after each step.
-/

namespace StoreBench.Skew

open Numeric StoreBench.Random

/-- The start of the shortest tail of ranks up to `k` whose mass, added to `mass`, reaches
`rate`. -/
def tailStart (theta zetaN rate : Float) : (k : Nat) → (mass : Float) → Nat
  | 0, _ => 0
  | k + 1, mass =>
    let mass := mass + 1.0 / (k + 1).toFloat.pow theta / zetaN
    if rate ≤ mass then k else tailStart theta zetaN rate k mass

theorem tailStart_lt {n k : Nat} (theta zetaN rate mass : Float) (hn : 0 < n) (hk : k ≤ n) :
    tailStart theta zetaN rate k mass < n := by
  induction k generalizing mass with
  | zero => exact hn
  | succ k ih =>
    simp only [tailStart]
    split
    · omega
    · exact ih _ (by omega)

/-- The first index of the tail of `n` values that carries the fraction `rate` of the mass. -/
def zipfianTail (n : Nat) (theta rate : Float) : Nat :=
  tailStart theta (zeta n theta) rate n 0.0

/-- The exact value of a selection rate, when it lies in `(0, 1]`. -/
def selectionRate? (rate : Float) : Option { q : Rat // 0 < q ∧ q ≤ 1 } :=
  match exactValue? rate with
  | none => none
  | some q => if h : 0 < q ∧ q ≤ 1 then some ⟨q, h⟩ else none

/-- The first and last index of a window over `n` values that covers the fraction `rate`, at the
position `u` of the positions it can take. -/
def window (n : Nat) (rate u : Rat) : Nat × Nat :=
  let count := roundToDouble n
  let span := roundToDouble (1 - rate)
  let reached := roundToDouble (u * span)
  let start := if reached ≤ span then reached else span
  let stop := roundToDouble (start + rate)
  (min (roundHalfUp (roundToDouble (start * count))) (n - 1),
    min (roundHalfUp (roundToDouble (stop * count))) (n - 1))

structure DistinctPool where
  values : Array Bytes
  rate : Float
  exactRate : Rat
  chooser : RankChooser
  /-- The first index of every range, when ranges are the Zipfian tail. -/
  tail : Option Nat
  ascending : Ascending values.toList
  nonempty : 0 < values.size
  domain : chooser.cardinality ≤ values.size
  tail_lt : ∀ t, tail = some t → t < values.size
  exactRate_mem : 0 < exactRate ∧ exactRate ≤ 1

namespace DistinctPool

/-- The tail to use for ranges: none unless they are Zipfian, which takes a skewed chooser. -/
def tail? (count : Nat) (rate : Float) (chooser : RankChooser) (zipfian : Bool) :
    Except Error (Option Nat) :=
  if zipfian then
    match chooser.theta? with
    | none => .error (.invalid .noTheta)
    | some theta => .ok (some (zipfianTail count theta rate))
  else .ok none

theorem tail?_lt {count : Nat} {rate : Float} {chooser : RankChooser} {zipfian : Bool}
    {tail : Option Nat} (hc : 0 < count) (h : tail? count rate chooser zipfian = .ok tail) :
    ∀ t, tail = some t → t < count := by
  intro t ht
  unfold tail? at h
  split at h
  · split at h
    · cases h
    · cases h
      cases ht
      exact tailStart_lt _ _ _ _ hc (Nat.le_refl _)
  · cases h
    cases ht

/-- A pool under construction: the pool with the rest of the stream, or why there is none, and the
number of repeated values discarded. -/
structure Construction where
  result : Except Error (DistinctPool × Stream)
  repeats : Nat

section Construct

variable {σ : Type} [ChoosesLengths σ]

/-- Collect `count` distinct values and the means of selecting among them. -/
def construct (count : Nat) (length : σ) (rate : Float) (chooser : Option RankChooser)
    (zipfian : Bool) (s : Stream) : Construction :=
  if hc : 0 < count then
    match selectionRate? rate, chooser with
    | none, _ => ⟨.error (.selectionRate rate), 0⟩
    | some _, none => ⟨.error .missingRankChooser, 0⟩
    | some exact, some chooser =>
      if hd : chooser.cardinality ≤ count then
        match ht : tail? count rate chooser zipfian with
        | .error e => ⟨.error e, 0⟩
        | .ok tail =>
          let collection := collect count ∅ ⟨length, [], s⟩
          match hv : collection.result with
          | .error found => ⟨.error (.invalid (.tooFewValues count found)), collection.repeats⟩
          | .ok values =>
            have facts := collect_ascending hv
            have size : values.toArray.size = count := by simpa using facts.2
            ⟨.ok ({
              values := values.toArray
              rate
              exactRate := exact.val
              chooser
              tail
              ascending := facts.1
              nonempty := size.symm ▸ hc
              domain := size.symm ▸ hd
              tail_lt := size.symm ▸ tail?_lt hc ht
              exactRate_mem := exact.property }, collection.rest.stream), collection.repeats⟩
      else ⟨.error (.rankDomain chooser.cardinality count), 0⟩
  else ⟨.error (.invalid .noValues), 0⟩

/-- Build a pool and report every value that was discarded. -/
def build {ι : Interface} (count : Nat) (length : σ) (rate : Float)
    (chooser : Option RankChooser) (zipfian : Bool) (s : Stream) :
    Program ι (Except Error (DistinctPool × Stream)) := do
  let construction := construct count length rate chooser zipfian s
  construction.repeats.forM fun _ _ => Program.click .duplicateValue
  return construction.result

end Construct

variable (pool : DistinctPool)

def size : Nat := pool.values.size

/-- The value at the next drawn rank. -/
def pick (s : Stream) : Bytes × Stream :=
  have := Nat.lt_of_lt_of_le (pool.chooser.draw_lt_cardinality s) pool.domain
  (pool.values[(pool.chooser.draw s).1], (pool.chooser.draw s).2)

/-- The first and last index of the next range. A Zipfian tail draws nothing. -/
def pickIndices (s : Stream) : (Nat × Nat) × Stream :=
  match pool.tail with
  | some t => ((t, pool.size - 1), s)
  | none =>
    let (numerator, s) := s.nextFraction
    (window pool.size pool.exactRate (numerator * twoPow (-53)), s)

theorem pickIndices_lt (s : Stream) :
    (pool.pickIndices s).1.1 < pool.size ∧ (pool.pickIndices s).1.2 < pool.size := by
  have := pool.nonempty
  unfold pickIndices
  split
  · next t ht => exact ⟨pool.tail_lt t ht, Nat.sub_lt this Nat.one_pos⟩
  · simp only [window, size]
    omega

/-- The value at an index, which callers keep below the size. -/
def valueAt (i : Nat) (h : i < pool.size) : Bytes := pool.values[i]

/-- Select one value. -/
def next {ι : Interface} (s : Stream) : Program ι (Bytes × Stream) := do
  Program.click .valueChosen
  return pool.pick s

/-- Select a range by its indices. -/
def nextIndices {ι : Interface} (s : Stream) : Program ι ((Nat × Nat) × Stream) := do
  Program.click (if pool.tail.isSome then .tailChosen else .rangeChosen)
  return pool.pickIndices s

/-- Select a range by its lowest and highest value. -/
def nextRange {ι : Interface} (s : Stream) : Program ι ((Bytes × Bytes) × Stream) := do
  Program.click (if pool.tail.isSome then .tailChosen else .rangeChosen)
  let picked := pool.pickIndices s
  have bounds := pool.pickIndices_lt s
  return ((pool.valueAt picked.1.1 bounds.1, pool.valueAt picked.1.2 bounds.2), picked.2)

/-- The summary shown in place of the values. -/
def summary : String :=
  Text.record "DistinctValueGenerator" [
    ("values", toString pool.size),
    ("selection_rate", Text.ofFloat .exact pool.rate),
    ("cardinality", toString pool.chooser.cardinality),
    ("zipfian_tail", Text.ofOption toString pool.tail)]

end DistinctPool

end StoreBench.Skew
