import StoreBench.Random.Stream
import StoreBench.Skew.Error
/-!
# Rank choosers

A rank chooser draws ranks below its cardinality: uniformly, following a Zipfian law under which
rank 0 is the most popular, or following the same law with the popular ranks scattered by a hash.
Whatever the floating-point formula yields, a drawn rank is below the cardinality.
-/

namespace StoreBench.Skew

open StoreBench.Random

/-- The generalized harmonic number: the sum of `1 / i ^ theta` for `i` from 1 to `n`, added in
ascending order. -/
def zeta (n : Nat) (theta : Float) : Float :=
  n.fold (fun i _ sum => sum + 1.0 / (i + 1).toFloat.pow theta) 0.0

/-- A Zipfian law over a positive number of items, with the constants its inverse needs. -/
structure Zipf where
  items : Nat
  theta : Float
  alpha : Float
  zetan : Float
  eta : Float
  halfPowTheta : Float
  items_pos : 0 < items

namespace Zipf

def ofTheta? (n : Nat) (theta : Float) : Except Error Zipf :=
  if h : 0 < n then
    if 0.0 < theta && theta < 1.0 then
      let zetan := zeta n theta
      let zeta2 := zeta (min 2 n) theta
      .ok {
        items := n
        theta
        alpha := 1.0 / (1.0 - theta)
        zetan
        eta := (1.0 - (2.0 / n.toFloat).pow (1.0 - theta)) / (1.0 - zeta2 / zetan)
        halfPowTheta := (0.5 : Float).pow theta
        items_pos := h }
    else .error (.invalid (.thetaRange theta))
  else .error (.invalid (.noItems "zipfian"))

/-- A law has the items and the skew it was asked for. -/
theorem of_ofTheta? {n : Nat} {theta : Float} {z : Zipf} (h : ofTheta? n theta = .ok z) :
    z.items = n ∧ z.theta = theta := by
  unfold ofTheta? at h
  split at h
  · split at h
    · cases h
      exact ⟨rfl, rfl⟩
    · cases h
  · cases h

/-- The rank at the quantile `u`, cut off at the last item. -/
def rankAt (z : Zipf) (u : Float) : Nat :=
  let uz := u * z.zetan
  if uz < 1.0 then 0
  else if uz < 1.0 + z.halfPowTheta then min 1 (z.items - 1)
  else
    let rank := z.items.toFloat * (z.eta * u - z.eta + 1.0).pow z.alpha
    min rank.toUInt64.toNat (z.items - 1)

theorem rankAt_lt (z : Zipf) (u : Float) : z.rankAt u < z.items := by
  have := z.items_pos
  simp only [rankAt]
  split
  · exact this
  · split <;> omega

end Zipf

/-- The 64-bit Fowler–Noll–Vo hash of a number's eight bytes. -/
def scatter (n : Nat) : Nat :=
  (Bytes.ofNatLE 8 n).foldl (fun (hash : UInt64) b => (hash ^^^ b.toUInt64) * 1099511628211)
    0xcbf29ce484222325 |>.toNat

inductive RankChooser where
  | uniform (n : Nat) (pos : 0 < n)
  | zipfian (law : Zipf)
  | scrambled (law : Zipf)

namespace RankChooser

def uniform? (n : Nat) : Except Error RankChooser :=
  if h : 0 < n then .ok (.uniform n h) else .error (.invalid (.noItems "uniform"))

/-- The chooser over `n` items that a mode names. -/
def ofMode? (mode : String) (n : Nat) (theta : Float) : Except Error RankChooser :=
  match mode with
  | "uniform" => uniform? n
  | "zipfian" => zipfian <$> Zipf.ofTheta? n theta
  | "scrambled" => scrambled <$> Zipf.ofTheta? n theta
  | _ => .error (.invalid (.unknownRankMode mode))

/-- The number of ranks drawn from. -/
def cardinality : RankChooser → Nat
  | uniform n _ => n
  | zipfian law => law.items
  | scrambled law => law.items

/-- The skew, for the Zipfian choosers. -/
def theta? : RankChooser → Option Float
  | uniform .. => none
  | zipfian law => some law.theta
  | scrambled law => some law.theta

theorem cardinality_uniform? {n : Nat} {chooser : RankChooser} (h : uniform? n = .ok chooser) :
    chooser.cardinality = n := by
  unfold uniform? at h
  split at h
  · cases h
    rfl
  · cases h

/-- A chooser draws from as many ranks as it was asked to. -/
theorem cardinality_ofMode? {mode : String} {n : Nat} {theta : Float} {chooser : RankChooser}
    (h : ofMode? mode n theta = .ok chooser) : chooser.cardinality = n := by
  unfold ofMode? at h
  split at h
  · exact cardinality_uniform? h
  · cases hz : Zipf.ofTheta? n theta with
    | error e =>
      rw [hz] at h
      cases h
    | ok law =>
      rw [hz] at h
      cases h
      exact (Zipf.of_ofTheta? hz).1
  · cases hz : Zipf.ofTheta? n theta with
    | error e =>
      rw [hz] at h
      cases h
    | ok law =>
      rw [hz] at h
      cases h
      exact (Zipf.of_ofTheta? hz).1
  · cases h

/-- Draw the next rank. -/
def draw (chooser : RankChooser) (s : Stream) : Nat × Stream :=
  match chooser with
  | uniform n _ => s.nextBelow n
  | zipfian law =>
    let (u, s) := s.nextUnit
    (law.rankAt u, s)
  | scrambled law =>
    let (u, s) := s.nextUnit
    (scatter (law.rankAt u) % law.items, s)

theorem draw_lt_cardinality (chooser : RankChooser) (s : Stream) :
    (chooser.draw s).1 < chooser.cardinality := by
  cases chooser with
  | uniform n pos => exact s.nextBelow_lt pos
  | zipfian law => exact law.rankAt_lt _
  | scrambled law => exact Nat.mod_lt _ law.items_pos

end RankChooser

end StoreBench.Skew
