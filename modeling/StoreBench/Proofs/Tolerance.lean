import StoreBench.Proofs.Doubles
import StoreBench.Workload.Options
/-!
# Equality up to a thousandth

Options are equal if their rates are, up to a thousandth of the left one, and all else is the same.
As the band is that of the left one, what is a step down may be too far to step back up; below zero
the band is the wrong way around; and two steps in one direction can leave it. Apart from that the
comparison is an equivalence: it is reflexive where no rate is negative, symmetric where none gets
smaller, and transitive where none goes on in the direction it came from.
-/

namespace StoreBench.Skew

open Numeric

/-! ## The band around a number -/

/-- The double nearest to 0.999. -/
def lowFactor : Rat := 8998192055486251 * twoPow (-53)

/-- The double nearest to 1.001. -/
def highFactor : Rat := 4508103226997866 * twoPow (-52)

theorem number?_lowFactor : number? 0.999 = some lowFactor := rfl

theorem number?_highFactor : number? 1.001 = some highFactor := rfl

theorem lowFactor_mem : 0 < lowFactor ∧ lowFactor < 9991 / 10000 := by
  norm_num [lowFactor, twoPow_eq_zpow]

theorem highFactor_mem : 1 < highFactor ∧ highFactor < 2 := by
  norm_num [highFactor, twoPow_eq_zpow]

/-- The factors take back more than they give. -/
theorem highFactor_mul_lowFactor : highFactor * lowFactor < 1 - 1 / 2000000 := by
  norm_num [highFactor, lowFactor, twoPow_eq_zpow]

/-- A number lies in the band around another, whose ends are rounded. -/
def Near (p q : Rat) : Prop :=
  nearestDouble (p * lowFactor) ≤ q ∧ q ≤ nearestDouble (p * highFactor)

section Near

variable {p q r : Rat}

theorem low_le (h : 0 ≤ p) (hp : nearestDouble p = p) : nearestDouble (p * lowFactor) ≤ p := by
  have hfactor : lowFactor ≤ 1 := by linarith [lowFactor_mem.2]
  exact (nearestDouble_mono (mul_le_of_le_one_right h hfactor)).trans_eq hp

theorem le_high (h : 0 ≤ p) (hp : nearestDouble p = p) : p ≤ nearestDouble (p * highFactor) := by
  have hfactor : 1 ≤ highFactor := highFactor_mem.1.le
  exact hp.ge.trans (nearestDouble_mono (le_mul_of_one_le_right h hfactor))

theorem low_mono (h : p ≤ q) : nearestDouble (p * lowFactor) ≤ nearestDouble (q * lowFactor) :=
  nearestDouble_mono (mul_le_mul_of_nonneg_right h lowFactor_mem.1.le)

theorem high_mono (h : p ≤ q) : nearestDouble (p * highFactor) ≤ nearestDouble (q * highFactor) :=
  nearestDouble_mono (mul_le_mul_of_nonneg_right h (zero_lt_one.trans highFactor_mem.1).le)

theorem Near.refl (h : 0 ≤ p) (hp : nearestDouble p = p) : Near p p := ⟨low_le h hp, le_high h hp⟩

/-- Below zero the band is the wrong way around, and holds nothing but the number, if anything. -/
theorem Near.eq_of_neg (h : p < 0) (hp : nearestDouble p = p) (hnear : Near p q) : q = p := by
  have hpos : 0 ≤ -p := by linarith
  have hneg : nearestDouble (-p) = -p := (nearestDouble_neg p).trans (congrArg _ hp)
  have hlow := low_le hpos hneg
  have hhigh := le_high hpos hneg
  rw [neg_mul, nearestDouble_neg] at hlow hhigh
  obtain ⟨hlow', hhigh'⟩ := hnear
  linarith

/-- The grid at the upper end of the band is at most twice as coarse, and no coarser where the grid
gets no finer. -/
theorem high_width (h : 0 < p) :
    gridExponent (p * highFactor) ≤ gridExponent p ∨
      gridExponent (p * highFactor) ≤ gridExponent p + 1 ∧
        ((2 ^ 52 : Int) : Rat) * twoPow (gridExponent p) ≤ p := by
  have hpos : 0 < p * highFactor := mul_pos h (zero_lt_one.trans highFactor_mem.1)
  have hbinade : binade (p * highFactor) ≤ binade p + 1 := by
    have hlt : p * highFactor < twoPow (binade p + 1 + 1) := by
      rw [twoPow_add, show twoPow 1 = 2 from rfl]
      calc p * highFactor < p * 2 := mul_lt_mul_of_pos_left highFactor_mem.2 h
        _ ≤ twoPow (binade p + 1) * 2 := by linarith [(binade_mem h).2]
    have hexponent := twoPow_lt_twoPow.1 ((binade_mem hpos).1.trans_lt hlt)
    omega
  by_cases hfull : gridExponent p = binade p - 52
  · right
    refine ⟨by unfold gridExponent at *; omega, ?_⟩
    rw [← twoPow_add_natCast, hfull]
    calc twoPow (binade p - 52 + (52 : Nat)) = twoPow (binade p) := by congr 1; omega
      _ ≤ p := (binade_mem h).1
  · left
    unfold gridExponent at *
    omega

/-- What the upper end of the band is lowered to lies less than half a width above the number. -/
theorem lowered_high_lt (h : 0 < p) : nearestDouble (p * highFactor) * lowFactor <
    p + twoPow (gridExponent p) / 2 := by
  have hhigh : 0 < p * highFactor := mul_pos h (zero_lt_one.trans highFactor_mem.1)
  have hround := (abs_le.1 (roundToGrid_near hhigh)).2
  have hunit := twoPow_pos (gridExponent p)
  obtain ⟨hlow, hlow'⟩ := lowFactor_mem
  have hproduct : p * (highFactor * lowFactor) < p * (1 - 1 / 2000000) :=
    mul_lt_mul_of_pos_left highFactor_mul_lowFactor h
  have hback : nearestDouble (p * highFactor) * lowFactor ≤
      (p * highFactor + twoPow (gridExponent (p * highFactor)) / 2) * lowFactor := by
    rw [nearestDouble_of_nonneg hhigh.le]
    exact mul_le_mul_of_nonneg_right (by linarith) hlow.le
  rcases high_width h with hsame | ⟨htwice, hfull⟩
  · have hwidth := twoPow_le_twoPow.2 hsame
    have hrest : twoPow (gridExponent (p * highFactor)) / 2 * lowFactor ≤
        twoPow (gridExponent p) / 2 * 1 :=
      mul_le_mul (by linarith) (by linarith) hlow.le (by linarith)
    linarith
  · -- The grid is so fine here that what the factors lose outweighs the rounding.
    have hwidth : twoPow (gridExponent (p * highFactor)) ≤ 2 * twoPow (gridExponent p) := by
      rw [show (2 : Rat) = twoPow 1 from rfl, ← twoPow_add, Int.add_comm]
      exact twoPow_le_twoPow.2 htwice
    have hrest : twoPow (gridExponent (p * highFactor)) / 2 * lowFactor ≤
        twoPow (gridExponent p) * 1 :=
      mul_le_mul (by linarith) (by linarith) hlow.le hunit.le
    push_cast at hfull
    linarith

/-- From the upper part of the band one gets back. -/
theorem Near.symm (hp : nearestDouble p = p) (hq : nearestDouble q = q) (hle : p ≤ q)
    (hnear : Near p q) : Near q p := by
  rcases lt_trichotomy p 0 with hneg | rfl | hpos
  · cases hnear.eq_of_neg hneg hp
    exact hnear
  · -- Nothing but zero is near zero.
    have hzero : q = 0 := le_antisymm (by simpa using hnear.2) hle
    rw [hzero]
    exact .refl le_rfl hp
  · refine ⟨?_, hle.trans (le_high (hpos.le.trans hle) hq)⟩
    obtain ⟨hlow, -⟩ := lowFactor_mem
    have hlt : q * lowFactor < p + twoPow (gridExponent p) / 2 :=
      (mul_le_mul_of_nonneg_right hnear.2 hlow.le).trans_lt (lowered_high_lt hpos)
    have hgrid : roundToGrid p = p := (nearestDouble_of_nonneg hpos.le).symm.trans hp
    rw [nearestDouble_of_nonneg (mul_pos (hpos.trans_le hle) hlow).le]
    exact roundToGrid_le_of_lt hpos hgrid hlt

/-- What is near stays near by a second step, unless it goes on in the direction of the first. -/
theorem Near.trans (hp : nearestDouble p = p) (hnear : Near p q) (hnear' : Near q r)
    (hup : q ≤ p ∨ r ≤ q) (hdown : p ≤ q ∨ q ≤ r) : Near p r := by
  rcases lt_or_ge p 0 with hneg | hpos
  · cases hnear.eq_of_neg hneg hp
    exact hnear'
  · rcases le_total p r with hle | hle
    · refine ⟨(low_le hpos hp).trans hle, ?_⟩
      rcases hup with hback | hback
      · exact hnear'.2.trans (high_mono hback)
      · exact hback.trans hnear.2
    · refine ⟨?_, hle.trans (le_high hpos hp)⟩
      rcases hdown with hback | hback
      · exact (low_mono hback).trans hnear'.1
      · exact hnear.1.trans hback

end Near

/-! ## Rates -/

/-- The middle one of three does not lie strictly between the others. -/
def IsExtreme (x y z : Float) : Prop := (y ≤ x ∨ z ≤ y) ∧ (x ≤ y ∨ y ≤ z)

section Rates

variable {x y z : Float} {p q : Rat}

theorem approxEq_iff (hx : number? x = some p) (hy : number? y = some q) :
    approxEq x y = true ↔ Near p q := by
  rw [approxEq, Bool.and_eq_true, decide_eq_true_iff, decide_eq_true_iff,
    mul_le_iff hx number?_lowFactor hy, le_mul_iff hx number?_highFactor hy]
  rfl

theorem approxEq_refl (hx : x.isFinite = true) (hpos : 0 ≤ x) : approxEq x x = true := by
  obtain ⟨p, hx⟩ := exists_number hx
  have hzero : number? 0 = some 0 := rfl
  exact (approxEq_iff hx hx).2 (.refl ((le_iff hzero hx).1 hpos) (of_number hx).2)

theorem approxEq_symm (hx : x.isFinite = true) (hy : y.isFinite = true) (hle : x ≤ y)
    (h : approxEq x y = true) : approxEq y x = true := by
  obtain ⟨p, hx⟩ := exists_number hx
  obtain ⟨q, hy⟩ := exists_number hy
  have hnear := (approxEq_iff hx hy).1 h
  exact (approxEq_iff hy hx).2
    (hnear.symm (of_number hx).2 (of_number hy).2 ((le_iff hx hy).1 hle))

theorem approxEq_trans (hx : x.isFinite = true) (hy : y.isFinite = true) (hz : z.isFinite = true)
    (hmiddle : IsExtreme x y z) (h : approxEq x y = true) (h' : approxEq y z = true) :
    approxEq x z = true := by
  obtain ⟨p, hx⟩ := exists_number hx
  obtain ⟨q, hy⟩ := exists_number hy
  obtain ⟨r, hz⟩ := exists_number hz
  obtain ⟨hup, hdown⟩ := hmiddle
  rw [le_iff hy hx, le_iff hz hy] at hup
  rw [le_iff hx hy, le_iff hy hz] at hdown
  have hnear := (approxEq_iff hx hy).1 h
  have hnear' := (approxEq_iff hy hz).1 h'
  exact (approxEq_iff hx hz).2 (hnear.trans (of_number hx).2 hnear' hup hdown)

end Rates

/-! ## Options -/

/-- The laws of a comparison that looks at finite rates, at three that are compared: it is reflexive
where no rate is negative, symmetric where none gets smaller, and transitive where none of the
middle lies strictly between the others. -/
structure EquatesRates {α : Type} [BEq α] (rates : α → List Float) (a b c : α) : Prop where
  refl : (∀ x ∈ rates a, x.isFinite = true) → (∀ x ∈ rates a, 0 ≤ x) → (a == a) = true
  symm : (∀ x ∈ rates a, x.isFinite = true) → (∀ y ∈ rates b, y.isFinite = true) →
    (∀ t ∈ (rates a).zip (rates b), t.1 ≤ t.2) → (a == b) = true → (b == a) = true
  trans : (∀ x ∈ rates a, x.isFinite = true) → (∀ y ∈ rates b, y.isFinite = true) →
    (∀ z ∈ rates c, z.isFinite = true) →
    (∀ t ∈ (rates a).zip ((rates b).zip (rates c)), IsExtreme t.1 t.2.1 t.2.2) →
    (a == b) = true → (b == c) = true → (a == c) = true

section Lists

variable {xs ys zs : List Float}

theorem forall₂_approxEq_refl (hfinite : ∀ x ∈ xs, x.isFinite = true) (hpos : ∀ x ∈ xs, 0 ≤ x) :
    List.Forall₂ (approxEq · · = true) xs xs :=
  List.forall₂_same.2 fun x hx => approxEq_refl (hfinite x hx) (hpos x hx)

theorem forall₂_approxEq_symm (hxs : ∀ x ∈ xs, x.isFinite = true)
    (hys : ∀ y ∈ ys, y.isFinite = true) (hle : ∀ t ∈ xs.zip ys, t.1 ≤ t.2)
    (h : List.Forall₂ (approxEq · · = true) xs ys) :
    List.Forall₂ (approxEq · · = true) ys xs := by
  induction h with
  | nil => exact .nil
  | cons h _ ih =>
    simp only [List.zip_cons_cons, List.forall_mem_cons] at hxs hys hle
    exact .cons (approxEq_symm hxs.1 hys.1 hle.1 h) (ih hxs.2 hys.2 hle.2)

theorem forall₂_approxEq_trans (hxs : ∀ x ∈ xs, x.isFinite = true)
    (hys : ∀ y ∈ ys, y.isFinite = true) (hzs : ∀ z ∈ zs, z.isFinite = true)
    (hmiddle : ∀ t ∈ xs.zip (ys.zip zs), IsExtreme t.1 t.2.1 t.2.2)
    (h : List.Forall₂ (approxEq · · = true) xs ys)
    (h' : List.Forall₂ (approxEq · · = true) ys zs) :
    List.Forall₂ (approxEq · · = true) xs zs := by
  induction h generalizing zs with
  | nil => exact h'
  | cons h _ ih =>
    cases h' with
    | cons h' hrest =>
      simp only [List.zip_cons_cons, List.forall_mem_cons] at hxs hys hzs hmiddle
      exact .cons (approxEq_trans hxs.1 hys.1 hzs.1 hmiddle.1 h h')
        (ih hxs.2 hys.2 hzs.2 hmiddle.2 hrest)

end Lists

/-- A comparison for equality but in the rates, and up to a thousandth in those, has the laws. -/
theorem EquatesRates.of_beq_iff {α β : Type} [BEq α] {rates : α → List Float} {others : α → β}
    (hbeq : ∀ a b, (a == b) = true ↔
      others a = others b ∧ List.Forall₂ (approxEq · · = true) (rates a) (rates b)) (a b c : α) :
    EquatesRates rates a b c where
  refl ha hpos := (hbeq a a).2 ⟨rfl, forall₂_approxEq_refl ha hpos⟩
  symm ha hb hle h := by
    obtain ⟨hothers, hrates⟩ := (hbeq a b).1 h
    exact (hbeq b a).2 ⟨hothers.symm, forall₂_approxEq_symm ha hb hle hrates⟩
  trans ha hb hc hmiddle h h' := by
    obtain ⟨hothers, hrates⟩ := (hbeq a b).1 h
    obtain ⟨hothers', hrates'⟩ := (hbeq b c).1 h'
    exact (hbeq a c).2
      ⟨hothers.trans hothers', forall₂_approxEq_trans ha hb hc hmiddle hrates hrates'⟩

namespace DistinctOptions

/-- The rates of a pool's options, in order. -/
def rates (o : DistinctOptions) : List Float := [o.selectionRate, o.zipfTheta]

/-- The options but for the rates. -/
def withoutRates (o : DistinctOptions) : DistinctOptions :=
  { o with selectionRate := 0, zipfTheta := 0 }

theorem beq_iff (a b : DistinctOptions) : (a == b) = true ↔
    a.withoutRates = b.withoutRates ∧ List.Forall₂ (approxEq · · = true) a.rates b.rates := by
  show DistinctOptions.beq a b = true ↔ _
  obtain ⟨⟩ := a
  obtain ⟨⟩ := b
  simp only [DistinctOptions.beq, withoutRates, rates, mk.injEq, Bool.and_eq_true, beq_iff_eq,
    List.forall₂_cons, List.Forall₂.nil]
  tauto

end DistinctOptions

end StoreBench.Skew

namespace StoreBench

open Skew

namespace WorkloadOptions

/-- The rates of a workload's options, in order, those of its pool last. -/
def rates (o : WorkloadOptions) : List Float :=
  [o.readProportion, o.updateProportion, o.insertProportion, o.scanProportion, o.deleteProportion,
    o.filterProportion, o.zipfTheta] ++ o.filter.rates

/-- The options but for the rates. -/
def withoutRates (o : WorkloadOptions) : WorkloadOptions :=
  { o with
    readProportion := 0, updateProportion := 0, insertProportion := 0, scanProportion := 0,
    deleteProportion := 0, filterProportion := 0, zipfTheta := 0, filter := o.filter.withoutRates }

theorem beq_iff (a b : WorkloadOptions) : (a == b) = true ↔
    a.withoutRates = b.withoutRates ∧ List.Forall₂ (approxEq · · = true) a.rates b.rates := by
  show WorkloadOptions.beq a b = true ↔ _
  obtain ⟨⟩ := a
  obtain ⟨⟩ := b
  simp only [WorkloadOptions.beq, withoutRates, rates, mk.injEq, Bool.and_eq_true, beq_iff_eq,
    List.cons_append, List.nil_append, List.forall₂_cons, DistinctOptions.beq_iff]
  tauto

end WorkloadOptions

/-- Equality of options, of pools and of workloads alike, compares rates up to a thousandth and all
else exactly. So on finite rates it is reflexive where none is negative, symmetric where none gets
smaller, and transitive where none of the middle lies strictly between the others. -/
theorem equality_laws (a b c : DistinctOptions) (a' b' c' : WorkloadOptions) :
    EquatesRates DistinctOptions.rates a b c ∧ EquatesRates WorkloadOptions.rates a' b' c' :=
  ⟨.of_beq_iff DistinctOptions.beq_iff a b c, .of_beq_iff WorkloadOptions.beq_iff a' b' c'⟩

/-- With a negative rate options are not equal to themselves; a step up can be too far where the
same step down is not; and two steps up can be too far where either is not. -/
theorem equality_no_equivalence :
    let pool (rate : Float) : DistinctOptions := { selectionRate := rate }
    let workload (rate : Float) : WorkloadOptions := { readProportion := rate }
    (∀ x ∈ [-1, 0.4995, 0.5, 0.5005, 0.501], (x : Float).isFinite = true) ∧
    ((pool (-1) == pool (-1)) = false ∧ (workload (-1) == workload (-1)) = false) ∧
    ((pool 0.5 == pool 0.4995) = true ∧ (pool 0.4995 == pool 0.5) = false ∧
      (workload 0.5 == workload 0.4995) = true ∧ (workload 0.4995 == workload 0.5) = false) ∧
    ((pool 0.5 == pool 0.5005) = true ∧ (pool 0.5005 == pool 0.501) = true ∧
      (pool 0.5 == pool 0.501) = false ∧ (workload 0.5 == workload 0.5005) = true ∧
      (workload 0.5005 == workload 0.501) = true ∧ (workload 0.5 == workload 0.501) = false) := by
  decide

end StoreBench
