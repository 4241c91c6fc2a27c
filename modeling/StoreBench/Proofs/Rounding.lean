import Mathlib.Algebra.Order.Field.Power
import Mathlib.Data.Rat.Floor
import Mathlib.Tactic.Linarith
import StoreBench.Numeric.Rounding
/-!
# Laws of rounding to doubles

Rounding keeps the order of what it rounds, moves it by one part in `2 ^ 53` at most, and does not
change what was rounded before. All of it comes from the binade of a number: within one binade
rounding is that of whole numbers on a grid of one width, and it never leaves the closed binade,
whose ends lie on the grid.
-/

namespace StoreBench.Numeric

variable {p q : Rat} {k : Int}

/-! ## Whole numbers -/

theorem roundHalfEven_cases (q : Rat) :
    (roundHalfEven q = q.floor ∧ q - q.floor ≤ 1 / 2) ∨
      (roundHalfEven q = q.floor + 1 ∧ 1 / 2 ≤ q - q.floor) := by
  rw [roundHalfEven]
  grind

@[simp] theorem roundHalfEven_intCast (n : Int) : roundHalfEven n = n := by
  simp [roundHalfEven, Rat.floor_intCast]

theorem roundHalfEven_mono (h : p ≤ q) : roundHalfEven p ≤ roundHalfEven q := by
  have hfloor : p.floor ≤ q.floor := Rat.floor_monotone h
  rcases Int.lt_or_eq_of_le hfloor with hlt | heq
  · rcases roundHalfEven_cases p with hp | hp <;>
    rcases roundHalfEven_cases q with hq | hq <;>
    omega
  · -- With one floor for both, the parts behind it are in the order of the numbers.
    have hrest : p - p.floor ≤ q - p.floor := by linarith
    simp only [roundHalfEven, ← heq]
    grind

theorem roundHalfEven_near (q : Rat) : |(roundHalfEven q : Rat) - q| ≤ 1 / 2 := by
  have hle : (q.floor : Rat) ≤ q := Rat.floor_le q
  have hlt : q < q.floor + 1 := by exact_mod_cast Rat.lt_floor_add_one q
  rw [abs_le]
  rcases roundHalfEven_cases q with ⟨heq, hrest⟩ | ⟨heq, hrest⟩
  · rw [heq]
    constructor <;> linarith
  · rw [heq]
    push_cast
    constructor <;> linarith

theorem roundHalfUp_mono (h : p ≤ q) : roundHalfUp p ≤ roundHalfUp q := by
  have hfloor : (p + 1 / 2).floor ≤ (q + 1 / 2).floor := Rat.floor_monotone (by linarith)
  exact Int.toNat_le_toNat hfloor

/-! ## Binades -/

theorem twoPow_eq_zpow (k : Int) : twoPow k = (2 : Rat) ^ k := by
  unfold twoPow
  split
  · next h =>
    obtain ⟨n, rfl⟩ := Int.eq_ofNat_of_zero_le h
    simp
  · next h =>
    obtain ⟨n, hn⟩ := Int.eq_ofNat_of_zero_le (by omega : 0 ≤ -k)
    obtain rfl : k = -n := by omega
    simp

theorem twoPow_pos (k : Int) : 0 < twoPow k := by
  rw [twoPow_eq_zpow]
  positivity

theorem twoPow_add (j k : Int) : twoPow (j + k) = twoPow j * twoPow k := by
  simp only [twoPow_eq_zpow]
  exact zpow_add₀ two_ne_zero j k

theorem twoPow_le_twoPow {j k : Int} : twoPow j ≤ twoPow k ↔ j ≤ k := by
  simp only [twoPow_eq_zpow]
  exact zpow_le_zpow_iff_right₀ one_lt_two

theorem twoPow_lt_twoPow {j k : Int} : twoPow j < twoPow k ↔ j < k := by
  simp only [twoPow_eq_zpow]
  exact zpow_lt_zpow_iff_right₀ one_lt_two

theorem log2_mem {n : Nat} (h : n ≠ 0) :
    twoPow n.log2 ≤ (n : Rat) ∧ (n : Rat) < twoPow (n.log2 + 1) := by
  have hlow : ((2 ^ n.log2 : Nat) : Rat) ≤ n := Nat.cast_le.2 (Nat.log2_self_le h)
  have hhigh : (n : Rat) < ((2 ^ (n.log2 + 1) : Nat) : Rat) := Nat.cast_lt.2 Nat.lt_log2_self
  rw [twoPow_eq_zpow, twoPow_eq_zpow]
  exact ⟨by exact_mod_cast hlow, by exact_mod_cast hhigh⟩

/-- The lengths of numerator and denominator tell the binade up to one. -/
theorem estimate_mem (h : 0 < q) :
    let estimate : Int := (q.num.natAbs.log2 : Int) - (q.den.log2 : Int)
    twoPow (estimate - 1) ≤ q ∧ q < twoPow (estimate + 1) := by
  have hnum : ((q.num.natAbs : Nat) : Rat) = q * q.den := by
    rw [Nat.cast_natAbs, abs_of_pos (Rat.num_pos.2 h), Rat.mul_den_eq_num]
  have hden : (0 : Rat) < q.den := Nat.cast_pos.2 q.den_pos
  obtain ⟨hnumLow, hnumHigh⟩ := log2_mem (Int.natAbs_ne_zero.2 (Rat.num_pos.2 h).ne')
  obtain ⟨hdenLow, hdenHigh⟩ := log2_mem q.den_nz
  rw [hnum] at hnumLow hnumHigh
  intro estimate
  constructor
  · refine le_of_mul_le_mul_right ?_ hden
    calc twoPow (estimate - 1) * q.den
        ≤ twoPow (estimate - 1) * twoPow (q.den.log2 + 1) :=
          mul_le_mul_of_nonneg_left hdenHigh.le (twoPow_pos _).le
      _ = twoPow q.num.natAbs.log2 := by rw [← twoPow_add]; congr 1; omega
      _ ≤ q * q.den := hnumLow
  · refine lt_of_mul_lt_mul_right ?_ hden.le
    calc q * q.den < twoPow (q.num.natAbs.log2 + 1) := hnumHigh
      _ = twoPow (estimate + 1) * twoPow q.den.log2 := by rw [← twoPow_add]; congr 1; omega
      _ ≤ twoPow (estimate + 1) * q.den := mul_le_mul_of_nonneg_left hdenLow (twoPow_pos _).le

/-- A positive number lies in its binade. -/
theorem binade_mem (h : 0 < q) : twoPow (binade q) ≤ q ∧ q < twoPow (binade q + 1) := by
  obtain ⟨hlow, hhigh⟩ := estimate_mem h
  rw [binade]
  split
  · next hle => exact ⟨hle, hhigh⟩
  · next hlt =>
    rw [Int.sub_add_cancel]
    exact ⟨hlow, not_le.1 hlt⟩

theorem binade_eq_iff (h : 0 < q) : binade q = k ↔ twoPow k ≤ q ∧ q < twoPow (k + 1) := by
  refine ⟨fun heq => heq ▸ binade_mem h, fun ⟨hle, hlt⟩ => ?_⟩
  obtain ⟨hle', hlt'⟩ := binade_mem h
  have hup : binade q < k + 1 := twoPow_lt_twoPow.1 (hle'.trans_lt hlt)
  have hdown : k < binade q + 1 := twoPow_lt_twoPow.1 (hle.trans_lt hlt')
  omega

theorem binade_mono (hp : 0 < p) (h : p ≤ q) : binade p ≤ binade q := by
  have hlow := (binade_mem hp).1
  have hhigh := (binade_mem (hp.trans_le h)).2
  have hlt : binade p < binade q + 1 := twoPow_lt_twoPow.1 ((hlow.trans h).trans_lt hhigh)
  omega

theorem twoPow_add_natCast (k : Int) (n : Nat) :
    twoPow (k + n) = ((2 ^ n : Int) : Rat) * twoPow k := by
  rw [twoPow_add, twoPow_eq_zpow n, mul_comm]
  simp

/-! ## Rounding to a width -/

/-- The nearest whole number of widths `2 ^ k`. -/
def roundToWidth (k : Int) (q : Rat) : Rat := roundHalfEven (q / twoPow k) * twoPow k

theorem roundToWidth_mono (k : Int) (h : p ≤ q) : roundToWidth k p ≤ roundToWidth k q := by
  have hunit := twoPow_pos k
  refine mul_le_mul_of_nonneg_right (Int.cast_le.2 ?_) hunit.le
  exact roundHalfEven_mono (div_le_div_of_nonneg_right h hunit.le)

/-- A whole number of widths is not changed. -/
theorem roundToWidth_whole (k n : Int) : roundToWidth k (n * twoPow k) = n * twoPow k := by
  rw [roundToWidth, mul_div_cancel_right₀ _ (twoPow_pos k).ne', roundHalfEven_intCast]

/-- A whole number of widths bounds what is rounded as it bounds the number. -/
theorem roundToWidth_le {n : Int} (h : q ≤ n * twoPow k) : roundToWidth k q ≤ n * twoPow k :=
  (roundToWidth_mono k h).trans_eq (roundToWidth_whole k n)

theorem le_roundToWidth {n : Int} (h : n * twoPow k ≤ q) : n * twoPow k ≤ roundToWidth k q :=
  (roundToWidth_whole k n).ge.trans (roundToWidth_mono k h)

/-- Rounding moves a number by half a width at most. -/
theorem roundToWidth_near (k : Int) (q : Rat) : |roundToWidth k q - q| ≤ twoPow k / 2 := by
  have hunit := twoPow_pos k
  have hscaled : roundToWidth k q - q =
      (roundHalfEven (q / twoPow k) - q / twoPow k) * twoPow k := by
    rw [roundToWidth, sub_mul, div_mul_cancel₀ _ hunit.ne']
  rw [hscaled, abs_mul, abs_of_pos hunit]
  calc _ ≤ 1 / 2 * twoPow k := mul_le_mul_of_nonneg_right (roundHalfEven_near _) hunit.le
    _ = twoPow k / 2 := by ring

/-- What lies less than half a width above a whole number of them is rounded to that at most. -/
theorem roundToWidth_le_of_lt {n : Int} (h : q < n * twoPow k + twoPow k / 2) :
    roundToWidth k q ≤ n * twoPow k := by
  have hunit := twoPow_pos k
  have hnear := (abs_le.1 (roundToWidth_near k q)).2
  refine mul_le_mul_of_nonneg_right (Int.cast_le.2 ?_) hunit.le
  have hcast : (roundHalfEven (q / twoPow k) : Rat) < n + 1 := by
    refine lt_of_mul_lt_mul_right ?_ hunit.le
    show roundToWidth k q < (n + 1) * twoPow k
    linarith
  have hlt : roundHalfEven (q / twoPow k) < n + 1 := by exact_mod_cast hcast
  omega

/-! ## Rounding -/

theorem roundToDouble_of_nonpos (h : q ≤ 0) : roundToDouble q = 0 := if_pos h

theorem roundToDouble_of_pos (h : 0 < q) : roundToDouble q = roundToWidth (binade q - 52) q :=
  if_neg (not_le.2 h)

/-- The ends of a binade are whole numbers of its widths. -/
theorem twoPow_binade (q : Rat) :
    twoPow (binade q) = ((2 ^ 52 : Int) : Rat) * twoPow (binade q - 52) ∧
      twoPow (binade q + 1) = ((2 ^ 53 : Int) : Rat) * twoPow (binade q - 52) := by
  rw [← twoPow_add_natCast, ← twoPow_add_natCast]
  constructor <;> congr 1 <;> omega

/-- Rounding does not leave the binade, but for its upper end. -/
theorem roundToDouble_mem (h : 0 < q) :
    twoPow (binade q) ≤ roundToDouble q ∧ roundToDouble q ≤ twoPow (binade q + 1) := by
  obtain ⟨hlow, hhigh⟩ := binade_mem h
  obtain ⟨hstart, hstop⟩ := twoPow_binade q
  rw [roundToDouble_of_pos h]
  rw [hstart] at hlow ⊢
  rw [hstop] at hhigh ⊢
  exact ⟨le_roundToWidth hlow, roundToWidth_le hhigh.le⟩

theorem roundToDouble_nonneg (q : Rat) : 0 ≤ roundToDouble q := by
  rcases le_or_gt q 0 with h | h
  · exact (roundToDouble_of_nonpos h).ge
  · exact (twoPow_pos _).le.trans (roundToDouble_mem h).1

theorem roundToDouble_mono (h : p ≤ q) : roundToDouble p ≤ roundToDouble q := by
  rcases le_or_gt p 0 with hp | hp
  · rw [roundToDouble_of_nonpos hp]
    exact roundToDouble_nonneg q
  · have hq : 0 < q := hp.trans_le h
    rcases Int.lt_or_eq_of_le (binade_mono hp h) with hlt | heq
    · -- The end of the lower binade lies between the two.
      calc roundToDouble p ≤ twoPow (binade p + 1) := (roundToDouble_mem hp).2
        _ ≤ twoPow (binade q) := twoPow_le_twoPow.2 hlt
        _ ≤ roundToDouble q := (roundToDouble_mem hq).1
    · rw [roundToDouble_of_pos hp, roundToDouble_of_pos hq, heq]
      exact roundToWidth_mono _ h

/-- Rounding moves a number by one part in `2 ^ 53` at most. -/
theorem roundToDouble_near (h : 0 < q) : |roundToDouble q - q| ≤ q / 2 ^ 53 := by
  have hunits : ((2 ^ 52 : Int) : Rat) * twoPow (binade q - 52) ≤ q :=
    (twoPow_binade q).1.symm.trans_le (binade_mem h).1
  push_cast at hunits
  rw [roundToDouble_of_pos h]
  calc _ ≤ twoPow (binade q - 52) / 2 := roundToWidth_near _ q
    _ ≤ q / 2 ^ 53 := by linarith

theorem roundToDouble_pos (h : 0 < q) : 0 < roundToDouble q :=
  (twoPow_pos _).trans_le (roundToDouble_mem h).1

theorem roundToDouble_twoPow (k : Int) : roundToDouble (twoPow k) = twoPow k := by
  have hbinade : binade (twoPow k) = k :=
    (binade_eq_iff (twoPow_pos k)).2 ⟨le_rfl, twoPow_lt_twoPow.2 (Int.lt_succ k)⟩
  have hgrid := (twoPow_binade (twoPow k)).1
  rw [hbinade] at hgrid
  rw [roundToDouble_of_pos (twoPow_pos k), hbinade, hgrid, roundToWidth_whole]

/-- Rounding does not change what was rounded. -/
theorem roundToDouble_roundToDouble (q : Rat) :
    roundToDouble (roundToDouble q) = roundToDouble q := by
  rcases le_or_gt q 0 with h | h
  · rw [roundToDouble_of_nonpos h, roundToDouble_of_nonpos le_rfl]
  · obtain ⟨hlow, hhigh⟩ := roundToDouble_mem h
    rcases hhigh.lt_or_eq with hlt | heq
    · -- The rounded number is in the same binade, at a whole number of its units.
      have hpos := (twoPow_pos _).trans_le hlow
      have hsame : binade (roundToDouble q) = binade q := (binade_eq_iff hpos).2 ⟨hlow, hlt⟩
      rw [roundToDouble_of_pos hpos, hsame, roundToDouble_of_pos h]
      exact roundToWidth_whole _ _
    · rw [heq, roundToDouble_twoPow]

end StoreBench.Numeric
