import StoreBench.Proofs.Rounding
/-!
# The grid of doubles

Doubles around a positive number lie on a grid of one width: 53 significant bits, but no finer than
the least double of all. So rounding to the nearest double rounds to whole numbers of grid widths,
and leaves alone what lies on a grid as coarse. Magnitudes that overflow are left alone.
-/

namespace StoreBench.Numeric

variable {p q : Rat} {k n : Int}

/-- The width of the grid around a positive number, as an exponent. -/
def gridExponent (q : Rat) : Int := max (binade q - 52) (-1074)

/-- The double nearest to a number that is not negative, also where the grid gets no finer. -/
def roundToGrid (q : Rat) : Rat := if q ≤ 0 then 0 else roundToWidth (gridExponent q) q

theorem roundToGrid_of_nonpos (h : q ≤ 0) : roundToGrid q = 0 := if_pos h

theorem roundToGrid_of_pos (h : 0 < q) : roundToGrid q = roundToWidth (gridExponent q) q :=
  if_neg (not_le.2 h)

theorem gridExponent_mono (hp : 0 < p) (h : p ≤ q) : gridExponent p ≤ gridExponent q := by
  have hbinade := binade_mono hp h
  unfold gridExponent
  omega

/-- A power of two that is no finer than the grid is a whole number of its widths. -/
theorem exists_twoPow_eq (h : gridExponent q ≤ k) :
    ∃ n : Int, twoPow k = n * twoPow (gridExponent q) := by
  obtain ⟨d, hd⟩ := Int.eq_ofNat_of_zero_le (by omega : 0 ≤ k - gridExponent q)
  refine ⟨2 ^ d, ?_⟩
  rw [← twoPow_add_natCast]
  congr 1
  omega

/-! ## Rounding and the grid -/

section Positive

variable (h : 0 < q)

include h

/-- What is on the grid bounds what is rounded as it bounds the number. -/
theorem roundToGrid_le (hle : q ≤ n * twoPow (gridExponent q)) :
    roundToGrid q ≤ n * twoPow (gridExponent q) :=
  (roundToGrid_of_pos h).trans_le (roundToWidth_le hle)

theorem le_roundToGrid (hle : n * twoPow (gridExponent q) ≤ q) :
    n * twoPow (gridExponent q) ≤ roundToGrid q :=
  (le_roundToWidth hle).trans_eq (roundToGrid_of_pos h).symm

/-- What lies on the grid is not changed. -/
theorem roundToGrid_eq_self (hk : gridExponent q ≤ k) (hq : q = n * twoPow k) :
    roundToGrid q = q := by
  obtain ⟨m, hm⟩ := exists_twoPow_eq hk
  have hgrid : (n * m : Int) * twoPow (gridExponent q) = q := by
    push_cast
    rw [mul_assoc, ← hm, hq]
  rw [roundToGrid_of_pos h]
  calc roundToWidth (gridExponent q) q
      = roundToWidth (gridExponent q) ((n * m : Int) * twoPow (gridExponent q)) := by rw [hgrid]
    _ = (n * m : Int) * twoPow (gridExponent q) := roundToWidth_whole _ _
    _ = q := hgrid

/-- Rounding moves a number by half the width of the grid at most. -/
theorem roundToGrid_near : |roundToGrid q - q| ≤ twoPow (gridExponent q) / 2 := by
  rw [roundToGrid_of_pos h]
  exact roundToWidth_near _ q

/-- There are 53 significant bits to a number, unless the grid gets no finer. -/
theorem widths_mem : roundHalfEven (q / twoPow (gridExponent q)) ≤ 2 ^ 53 ∧
    (2 ^ 52 ≤ roundHalfEven (q / twoPow (gridExponent q)) ∨ gridExponent q = -1074) := by
  have hunit := twoPow_pos (gridExponent q)
  obtain ⟨hlow, hhigh⟩ := binade_mem h
  constructor
  · rw [← roundHalfEven_intCast (2 ^ 53)]
    refine roundHalfEven_mono ((div_le_iff₀ hunit).2 (hhigh.le.trans ?_))
    rw [← twoPow_add_natCast, twoPow_le_twoPow]
    unfold gridExponent
    omega
  · by_cases hleast : gridExponent q = -1074
    · exact .inr hleast
    · left
      rw [← roundHalfEven_intCast (2 ^ 52)]
      refine roundHalfEven_mono ((le_div_iff₀ hunit).2 (le_trans ?_ hlow))
      rw [← twoPow_add_natCast, twoPow_le_twoPow]
      unfold gridExponent at *
      omega

end Positive

theorem roundToGrid_nonneg (q : Rat) : 0 ≤ roundToGrid q := by
  rcases le_or_gt q 0 with h | h
  · exact (roundToGrid_of_nonpos h).ge
  · have hzero : ((0 : Int) : Rat) * twoPow (gridExponent q) ≤ q := by simpa using h.le
    simpa using le_roundToGrid h hzero

theorem roundToGrid_mono (h : p ≤ q) : roundToGrid p ≤ roundToGrid q := by
  rcases le_or_gt p 0 with hp | hp
  · rw [roundToGrid_of_nonpos hp]
    exact roundToGrid_nonneg q
  · have hq : 0 < q := hp.trans_le h
    rcases Int.lt_or_eq_of_le (gridExponent_mono hp h) with hlt | heq
    · -- The binade of the greater number starts between the two, on the grid of either.
      have hfiner : gridExponent q = binade q - 52 := by unfold gridExponent at *; omega
      have hbelow : gridExponent p ≤ binade q := by omega
      have hcoarse : gridExponent q ≤ binade q := by omega
      have hbinade : binade p + 1 ≤ binade q := by unfold gridExponent at *; omega
      obtain ⟨m, hm⟩ := exists_twoPow_eq hbelow
      obtain ⟨n, hn⟩ := exists_twoPow_eq hcoarse
      calc roundToGrid p ≤ twoPow (binade q) := by
            rw [hm]
            refine roundToGrid_le hp ?_
            rw [← hm]
            exact (binade_mem hp).2.le.trans (twoPow_le_twoPow.2 hbinade)
        _ ≤ roundToGrid q := by
            rw [hn]
            refine le_roundToGrid hq ?_
            rw [← hn]
            exact (binade_mem hq).1
    · rw [roundToGrid_of_pos hp, roundToGrid_of_pos hq, ← heq]
      exact roundToWidth_mono _ h

/-! ## Doubles -/

/-- A positive double is a positive number of widths. -/
theorem exists_eq_widths (h : 0 < p) (hp : roundToGrid p = p) :
    ∃ n : Int, 0 < n ∧ p = n * twoPow (gridExponent p) := by
  have hwhole : p = roundHalfEven (p / twoPow (gridExponent p)) * twoPow (gridExponent p) :=
    hp.symm.trans (roundToGrid_of_pos h)
  refine ⟨_, ?_, hwhole⟩
  have hcast : (0 : Rat) < roundHalfEven (p / twoPow (gridExponent p)) := by
    refine pos_of_mul_pos_left ?_ (twoPow_pos (gridExponent p)).le
    rw [← hwhole]
    exact h
  exact_mod_cast hcast

/-- A positive double lies at least one width below the end of its binade. -/
theorem add_width_le (h : 0 < p) (hp : roundToGrid p = p) :
    p + twoPow (gridExponent p) ≤ twoPow (binade p + 1) := by
  obtain ⟨n, hpos, hwhole⟩ := exists_eq_widths h hp
  have hunit := twoPow_pos (gridExponent p)
  have hend := (binade_mem h).2
  have hexponent : gridExponent p ≤ binade p + 1 := by
    have hone : (1 : Rat) ≤ n := by exact_mod_cast hpos
    have hleast : twoPow (gridExponent p) ≤ p :=
      (le_mul_of_one_le_left hunit.le hone).trans_eq hwhole.symm
    have hlt := twoPow_lt_twoPow.1 (hleast.trans_lt hend)
    omega
  obtain ⟨m, hm⟩ := exists_twoPow_eq hexponent
  have hcast : (n : Rat) < m := by
    refine lt_of_mul_lt_mul_right ?_ hunit.le
    rw [← hwhole, ← hm]
    exact hend
  have hlt : n < m := by exact_mod_cast hcast
  have hnext : (n : Rat) + 1 ≤ m := by exact_mod_cast hlt
  calc p + twoPow (gridExponent p) = (n + 1) * twoPow (gridExponent p) := by
        rw [add_mul, one_mul, ← hwhole]
    _ ≤ m * twoPow (gridExponent p) := mul_le_mul_of_nonneg_right hnext hunit.le
    _ = twoPow (binade p + 1) := hm.symm

/-- What lies less than half a width above a double is rounded to the double at most. -/
theorem roundToGrid_le_of_lt (h : 0 < p) (hp : roundToGrid p = p)
    (hq : q < p + twoPow (gridExponent p) / 2) : roundToGrid q ≤ p := by
  rcases le_or_gt q p with hle | hlt
  · exact (roundToGrid_mono hle).trans_eq hp
  · -- Beyond the double the number is still in its binade, and so on the same grid.
    obtain ⟨n, -, hwhole⟩ := exists_eq_widths h hp
    have hunit := twoPow_pos (gridExponent p)
    have hend := add_width_le h hp
    have hpos : 0 < q := h.trans hlt
    have hbinade : binade q = binade p := by
      refine (binade_eq_iff hpos).2 ⟨(binade_mem h).1.trans hlt.le, ?_⟩
      linarith
    have hgrid : gridExponent q = gridExponent p := by
      unfold gridExponent
      rw [hbinade]
    rw [roundToGrid_of_pos hpos, hgrid]
    refine (roundToWidth_le_of_lt ?_).trans_eq hwhole.symm
    rw [← hwhole]
    exact hq

/-! ## Either sign -/

/-- The double nearest to a number, rounded by its magnitude. -/
def nearestDouble (q : Rat) : Rat := if 0 ≤ q then roundToGrid q else -roundToGrid (-q)

theorem nearestDouble_of_nonneg (h : 0 ≤ q) : nearestDouble q = roundToGrid q := if_pos h

@[simp] theorem nearestDouble_zero : nearestDouble 0 = 0 :=
  (nearestDouble_of_nonneg le_rfl).trans (roundToGrid_of_nonpos le_rfl)

theorem nearestDouble_neg (q : Rat) : nearestDouble (-q) = -nearestDouble q := by
  rcases lt_trichotomy q 0 with h | rfl | h
  · rw [nearestDouble, if_pos (neg_nonneg.2 h.le), nearestDouble, if_neg (not_le.2 h), neg_neg]
  · simp
  · rw [nearestDouble, if_neg (by linarith), neg_neg, nearestDouble_of_nonneg h.le]

theorem nearestDouble_nonneg (h : 0 ≤ q) : 0 ≤ nearestDouble q :=
  (roundToGrid_nonneg q).trans_eq (nearestDouble_of_nonneg h).symm

theorem nearestDouble_mono (h : p ≤ q) : nearestDouble p ≤ nearestDouble q := by
  rcases le_or_gt 0 p with hp | hp
  · rw [nearestDouble_of_nonneg hp, nearestDouble_of_nonneg (hp.trans h)]
    exact roundToGrid_mono h
  · rcases le_or_gt 0 q with hq | hq
    · have hneg : 0 ≤ nearestDouble (-p) := nearestDouble_nonneg (by linarith)
      rw [nearestDouble_neg] at hneg
      exact (by linarith : nearestDouble p ≤ 0).trans (nearestDouble_nonneg hq)
    · have hmono : roundToGrid (-q) ≤ roundToGrid (-p) := roundToGrid_mono (by linarith)
      rw [nearestDouble, if_neg (not_le.2 hp), nearestDouble, if_neg (not_le.2 hq)]
      linarith

end StoreBench.Numeric
