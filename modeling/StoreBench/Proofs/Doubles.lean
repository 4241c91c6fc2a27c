import Mathlib
import StoreBench.Proofs.DoubleGrid
/-!
# Products of doubles

What the operations on `Float` compute, in rational numbers. A finite double is a number on the grid
of doubles; it is at most another just if its number is; and the product of two is the exact product
rounded to the grid, or infinite where that overflows.
-/

namespace StoreBench.Numeric

open Float.Model Float.Model.UnpackedFloat

/-! ## Shifting -/

/-- What a mantissa and its residual bits tell of a number: the whole part, whether a half or more
is left, and whether more is left than nothing or just a half. -/
structure Represents (em : ExtendedMantissa) (q : Rat) : Prop where
  le : em.mantissa ≤ q
  lt : q < em.mantissa + 1
  roundBit_iff : em.roundBit = true ↔ em.mantissa + 1 / 2 ≤ q
  stickyBit_iff : em.stickyBit = true ↔ q ≠ em.mantissa ∧ q ≠ em.mantissa + 1 / 2

namespace Represents

variable {em : ExtendedMantissa} {q : Rat}

theorem exact (m : Nat) : Represents (.ofMantissaAndAccuracy m .exact) m where
  le := le_rfl
  lt := lt_add_one _
  roundBit_iff := by simp [ExtendedMantissa.ofMantissaAndAccuracy]
  stickyBit_iff := by simp [ExtendedMantissa.ofMantissaAndAccuracy]

theorem floor_eq (h : Represents em q) : q.floor = em.mantissa := by
  have hlow : (q.floor : Rat) < em.mantissa + 1 := (Rat.floor_le q).trans_lt h.lt
  have hhigh : (em.mantissa : Rat) < q.floor + 1 :=
    h.le.trans_lt (by exact_mod_cast Rat.lt_floor_add_one q)
  have hlow' : q.floor < em.mantissa + 1 := by exact_mod_cast hlow
  have hhigh' : (em.mantissa : Int) < q.floor + 1 := by exact_mod_cast hhigh
  omega

/-- Rounding a mantissa is rounding the number. -/
theorem roundedMantissa_eq (h : Represents em q) :
    (em.roundedMantissa : Int) = roundHalfEven q := by
  have hfloor := h.floor_eq
  obtain ⟨hle, hlt, hround, hsticky⟩ := h
  obtain ⟨m, round, sticky⟩ := em
  simp only [roundHalfEven, hfloor, Int.cast_natCast] at hround hsticky ⊢
  cases round with
  | false =>
    have hbelow : q - m < 1 / 2 := by
      have hnot := mt hround.2 Bool.false_ne_true
      linarith [not_le.1 hnot]
    rw [if_pos hbelow]
    cases sticky <;> rfl
  | true =>
    have hhalf := hround.1 rfl
    rw [if_neg (by linarith)]
    cases sticky with
    | false =>
      have heq : q = m + 1 / 2 := by
        by_contra hne
        refine Bool.false_ne_true (hsticky.2 ⟨?_, hne⟩)
        intro heq
        linarith
      rw [if_neg (by linarith)]
      show ((m + m % 2 : Nat) : Int) = _
      split <;> omega
    | true =>
      have hne := (hsticky.1 rfl).2
      have habove : 1 / 2 < q - m := by
        have hlt := lt_of_le_of_ne hhalf (Ne.symm hne)
        linarith
      rw [if_pos habove]
      rfl

theorem shiftRightOne (h : Represents em q) : Represents em.shiftRightOne (q / 2) := by
  have hrest : em.roundBit = true ∨ em.stickyBit = true ↔ q ≠ em.mantissa := by
    rw [h.roundBit_iff, h.stickyBit_iff]
    constructor
    · rintro (hhalf | ⟨hne, -⟩)
      · intro heq
        linarith
      · exact hne
    · intro hne
      by_cases hhalf : em.mantissa + 1 / 2 ≤ q
      · exact .inl hhalf
      · exact .inr ⟨hne, fun heq => hhalf heq.ge⟩
  have hle := h.le
  have hlt := h.lt
  have hparts : ((em.mantissa % 2 : Nat) : Rat) + 2 * ((em.mantissa / 2 : Nat) : Rat) =
      em.mantissa := by
    exact_mod_cast Nat.mod_add_div em.mantissa 2
  refine ⟨?_, ?_, ?_, ?_⟩
  · show ((em.mantissa / 2 : Nat) : Rat) ≤ q / 2
    have hbit : (0 : Rat) ≤ (em.mantissa % 2 : Nat) := Nat.cast_nonneg _
    linarith
  · show q / 2 < ((em.mantissa / 2 : Nat) : Rat) + 1
    have hbit : ((em.mantissa % 2 : Nat) : Rat) ≤ 1 := by
      exact_mod_cast Nat.le_of_lt_succ (Nat.mod_lt _ two_pos)
    linarith
  · show (em.mantissa % 2 != 0) = true ↔ ((em.mantissa / 2 : Nat) : Rat) + 1 / 2 ≤ q / 2
    rcases Nat.mod_two_eq_zero_or_one em.mantissa with hm | hm
    · rw [hm] at hparts ⊢
      push_cast at hparts
      refine iff_of_false (by decide) ?_
      intro hhalf
      linarith
    · rw [hm] at hparts ⊢
      push_cast at hparts
      refine iff_of_true (by decide) ?_
      linarith
  · show (em.roundBit || em.stickyBit) = true ↔
      q / 2 ≠ ((em.mantissa / 2 : Nat) : Rat) ∧ q / 2 ≠ ((em.mantissa / 2 : Nat) : Rat) + 1 / 2
    rw [Bool.or_eq_true, hrest]
    -- One of the two numbers is the mantissa halved, the other is out of reach.
    rcases Nat.mod_two_eq_zero_or_one em.mantissa with hm | hm
    · rw [hm] at hparts
      push_cast at hparts
      constructor
      · intro hne
        refine ⟨fun heq => hne (by linarith), fun heq => ?_⟩
        linarith
      · rintro ⟨hne, -⟩ heq
        exact hne (by linarith)
    · rw [hm] at hparts
      push_cast at hparts
      constructor
      · intro hne
        refine ⟨fun heq => ?_, fun heq => hne (by linarith)⟩
        linarith
      · rintro ⟨-, hne⟩ heq
        exact hne (by linarith)

theorem shiftRight (h : Represents em q) (n : Nat) : Represents (em >>> n) (q / 2 ^ n) := by
  induction n with
  | zero =>
    rw [pow_zero, div_one]
    exact h
  | succ n ih =>
    rw [pow_succ, ← div_div]
    exact ih.shiftRightOne

end Represents

/-! ## Mantissas and exponents -/

/-- A mantissa of 53 bits, or of fewer with the least exponent. -/
structure IsCanonical (m : Nat) (e : Int) : Prop where
  lt : m < 2 ^ 53
  le : -1074 ≤ e
  full : 2 ^ 52 ≤ m ∨ e = -1074

section Positive

variable {m : Nat} {e : Int} (hm : 0 < m)

include hm

theorem mantissa_pos (e : Int) : 0 < (m : Rat) * twoPow e :=
  mul_pos (Nat.cast_pos.2 hm) (twoPow_pos e)

theorem binade_mantissa : binade (m * twoPow e) = m.log2 + e := by
  obtain ⟨hlow, hhigh⟩ := log2_mem hm.ne'
  have hunit := twoPow_pos e
  refine (binade_eq_iff (mantissa_pos hm e)).2 ⟨?_, ?_⟩
  · rw [twoPow_add]
    exact mul_le_mul_of_nonneg_right hlow hunit.le
  · rw [show (m.log2 : Int) + e + 1 = m.log2 + 1 + e by omega, twoPow_add]
    exact mul_lt_mul_of_pos_right hhigh hunit

/-- The exponent that is aimed at is that of the grid. -/
theorem targetExponent_eq :
    Format.binary64.targetExponent (totalExponent m e) = gridExponent (m * twoPow e) := by
  unfold gridExponent
  rw [binade_mantissa hm]
  simp only [Format.targetExponent, totalExponent, Format.mantissaBits, Format.minExponent]
  norm_num
  omega

theorem IsCanonical.gridExponent_eq (h : IsCanonical m e) : gridExponent (m * twoPow e) = e := by
  have hlog : m.log2 < 53 := (Nat.log2_lt hm.ne').2 h.lt
  have hle := h.le
  unfold gridExponent
  rw [binade_mantissa hm]
  rcases h.full with hfull | hleast
  · have hlog' : 52 ≤ m.log2 := (Nat.le_log2 hm.ne').2 hfull
    omega
  · omega

theorem IsCanonical.roundToGrid_eq (h : IsCanonical m e) :
    roundToGrid (m * twoPow e) = m * twoPow e :=
  roundToGrid_eq_self (n := m) (mantissa_pos hm e) (h.gridExponent_eq hm).le (by simp)

end Positive

/-! ## Rounding -/

/-- A shift to the grid tells what whole number of widths is nearest. -/
theorem shiftToTargetExponent_eq {m : Nat} {e : Int} (hm : 0 < m)
    (he : e ≤ gridExponent (m * twoPow e)) :
    let first := shiftToTargetExponent Format.binary64 m e .exact
    first.2 = gridExponent (m * twoPow e) ∧ (first.1.roundedMantissa : Int) =
      roundHalfEven (m * twoPow e / twoPow (gridExponent (m * twoPow e))) := by
  intro first
  obtain ⟨d, hd⟩ := Int.eq_ofNat_of_zero_le (by omega : 0 ≤ gridExponent (m * twoPow e) - e)
  have hfirst : first = (ExtendedMantissa.ofMantissaAndAccuracy m .exact >>> d, e + d) := by
    show shiftToExponent m e .exact (Format.binary64.targetExponent (totalExponent m e)) = _
    rw [targetExponent_eq hm, shiftToExponent, hd]
    rfl
  rw [hfirst]
  refine ⟨by simp only; omega, ?_⟩
  rw [((Represents.exact m).shiftRight d).roundedMantissa_eq]
  have hgrid : gridExponent (m * twoPow e) = e + d := by omega
  rw [hgrid, twoPow_add, mul_comm (m : Rat), mul_div_mul_left _ _ (twoPow_pos e).ne',
    twoPow_eq_zpow d, zpow_natCast]

/-- A mantissa that is short enough stays where it is. -/
theorem shiftToTargetExponent_of_lt {m : Nat} {e : Int} (hm : m < 2 ^ 53) (he : -1074 ≤ e) :
    shiftToTargetExponent Format.binary64 m e .exact = (⟨m, false, false⟩, e) := by
  have hlog : m.log2 < 53 := by
    by_cases hzero : m = 0
    · simp [hzero]
    · exact (Nat.log2_lt hzero).2 hm
  have htarget : Format.binary64.targetExponent (totalExponent m e) ≤ e := by
    simp only [Format.targetExponent, totalExponent, Format.mantissaBits, Format.minExponent]
    norm_num
    omega
  have hnone : (Format.binary64.targetExponent (totalExponent m e) - e).toNat = 0 := by omega
  rw [shiftToTargetExponent, shiftToExponent, hnone, Int.natCast_zero, Int.add_zero]
  rfl

/-- A mantissa that rounding made one bit too long is halved. -/
theorem shiftToTargetExponent_of_eq {e : Int} (he : -1074 ≤ e) :
    shiftToTargetExponent Format.binary64 (2 ^ 53) e .exact = (⟨2 ^ 52, false, false⟩, e + 1) := by
  have htarget : Format.binary64.targetExponent (totalExponent (2 ^ 53) e) = e + 1 := by
    simp only [Format.targetExponent, totalExponent, Format.mantissaBits, Format.minExponent,
      Nat.log2_two_pow]
    norm_num
    omega
  have hone : (Format.binary64.targetExponent (totalExponent (2 ^ 53) e) - e).toNat = 1 := by omega
  rw [shiftToTargetExponent, shiftToExponent, hone]
  rfl

/-- An exact number is rounded to the grid. -/
theorem roundWithAccuracy_eq {m : Nat} {e : Int} (hm : 0 < m)
    (he : e ≤ gridExponent (m * twoPow e)) (sign : Sign) :
    (roundWithAccuracy Format.binary64 sign m e .exact = .zero sign ∧
      roundToGrid (m * twoPow e) = 0) ∨
    ∃ r t hr, roundWithAccuracy Format.binary64 sign m e .exact = .finite sign r t hr ∧
      IsCanonical r t ∧ roundToGrid (m * twoPow e) = r * twoPow t := by
  obtain ⟨hexponent, hmantissa⟩ := shiftToTargetExponent_eq hm he
  obtain ⟨hmax, hfull⟩ := widths_mem (mantissa_pos hm e)
  have hvalue := roundToGrid_of_pos (mantissa_pos hm e)
  have hleast : -1074 ≤ gridExponent (m * twoPow e) := by unfold gridExponent; omega
  rw [roundToWidth, ← hmantissa, Int.cast_natCast] at hvalue
  rw [← hmantissa] at hmax hfull
  rw [← hexponent] at hvalue hfull hleast
  unfold roundWithAccuracy
  generalize shiftToTargetExponent Format.binary64 m e .exact = first at *
  obtain ⟨em, t⟩ := first
  simp only at *
  generalize em.roundedMantissa = r at *
  by_cases hlt : r < 2 ^ 53
  · rw [shiftToTargetExponent_of_lt hlt hleast]
    by_cases hzero : r = 0
    · subst hzero
      exact .inl ⟨rfl, by simpa using hvalue⟩
    · refine .inr ⟨r, t, Nat.pos_of_ne_zero hzero, dif_neg hzero, ⟨hlt, hleast, ?_⟩, hvalue⟩
      omega
  · obtain rfl : r = 2 ^ 53 := by omega
    rw [shiftToTargetExponent_of_eq hleast]
    have hshort : (2 ^ 52 : Nat) ≠ 0 := by decide
    refine .inr ⟨2 ^ 52, t + 1, by decide, dif_neg hshort, ⟨by decide, by omega, .inl le_rfl⟩, ?_⟩
    have htwo : twoPow 1 = 2 := rfl
    rw [hvalue, twoPow_add, htwo]
    push_cast
    ring

/-! ## Words -/

theorem toNat_implicit (b : BitVec 52) : (1#1 ++ b).toNat = 2 ^ 52 + b.toNat := by
  rw [BitVec.toNat_append, ← Nat.shiftLeft_add_eq_or_of_lt b.isLt]
  rfl

/-- What a word stands for is canonical, and its exponent is that of a finite number. -/
theorem of_unpack {b : BitVec 64} {sign : Sign} {m : Nat} {e : Int} {hm : 0 < m}
    (h : UnpackedFloat.unpack Format.binary64 b = .finite sign m e hm) :
    IsCanonical m e ∧ e ≤ 971 := by
  have hmantissa : (@unpackMantissa Format.binary64 b).toNat < 2 ^ 52 := BitVec.isLt _
  have hexponent : (@unpackExponent Format.binary64 b).toNat < 2 ^ 11 := BitVec.isLt _
  unfold UnpackedFloat.unpack at h
  simp only at h
  split at h
  · split at h <;> cases h
  · next hmax =>
    have hmax' : (@unpackExponent Format.binary64 b).toNat ≠ 2047 :=
      fun heq => hmax (BitVec.eq_of_toNat_eq heq)
    split at h
    · next hzero =>
      split at h
      · cases h
      · cases h
        rw [hzero]
        exact ⟨⟨by omega, by decide, .inr rfl⟩, by decide⟩
    · next hzero =>
      have hzero' : (@unpackExponent Format.binary64 b).toNat ≠ 0 :=
        fun heq => hzero (BitVec.eq_of_toNat_eq heq)
      cases h
      have hfull := toNat_implicit (@unpackMantissa Format.binary64 b)
      simp only [Format.exponentBias] at *
      refine ⟨⟨?_, ?_, .inl ?_⟩, ?_⟩
      · rw [hfull]; omega
      · omega
      · rw [hfull]; omega
      · omega

/-- Of a packed number all is found again, unless its exponent is too great for a finite one. -/
theorem unpack_pack {m : Nat} {e : Int} (hm : 0 < m) (h : IsCanonical m e) (sign : Sign) :
    UnpackedFloat.unpack Format.binary64
      (UnpackedFloat.pack Format.binary64 (.finite sign m e hm)) =
      if e ≤ 971 then .finite sign m e hm else .infinity sign := by
  have hle := h.le
  have hlt := h.lt
  have hbias : (Format.binary64.exponentBias : Int) = 1023 := rfl
  have hbiased : e + (Format.binary64.exponentBias : Int) +
      Format.binary64.mantissaBitsWithoutImplicit = e + 1075 := by
    rw [hbias]
    show e + 1023 + 52 = e + 1075
    omega
  unfold UnpackedFloat.pack
  simp only [hbiased]
  by_cases hfinite : e ≤ 971
  · rw [if_pos hfinite, if_neg (by norm_num; omega)]
    by_cases hfull : 2 ^ 52 ≤ m
    · -- A full mantissa goes without its leading bit.
      have hlog : m.log2 = 52 := (Nat.log2_eq_iff hm.ne').2 ⟨hfull, hlt⟩
      have hmantissa : (1#1 ++ BitVec.ofNat 52 m).toNat = m := by
        rw [toNat_implicit, BitVec.toNat_ofNat]
        omega
      have hexponent : (BitVec.ofNat 11 (e + 1075).toNat).toNat = (e + 1075).toNat := by
        rw [BitVec.toNat_ofNat]
        omega
      have hmax : BitVec.ofNat 11 (e + 1075).toNat ≠ -1#11 := by
        intro heq
        have hnat := congrArg BitVec.toNat heq
        rw [hexponent, show (-1#11).toNat = 2047 from rfl] at hnat
        omega
      have hzero : BitVec.ofNat 11 (e + 1075).toNat ≠ 0#11 := by
        intro heq
        have hnat := congrArg BitVec.toNat heq
        rw [hexponent, show (0#11).toNat = 0 from rfl] at hnat
        omega
      rw [if_pos (by rw [hlog]; rfl)]
      simp only [UnpackedFloat.unpack, unpackMantissa_packComponents,
        unpackExponent_packComponents, unpackSign_packComponents, Sign.ofBitVec_toBitVec, hmax,
        hzero, if_false, hmantissa, hexponent]
      congr 1
      rw [hbias]
      show ((e + 1075).toNat : Int) - (1023 + 52) = e
      omega
    · obtain rfl : e = -1074 := h.full.resolve_left hfull
      have hlog : m.log2 < 52 := (Nat.log2_lt hm.ne').2 (by omega)
      have hmantissa : (BitVec.ofNat 52 m).toNat = m := by
        rw [BitVec.toNat_ofNat]
        omega
      have hzero : BitVec.ofNat 52 m ≠ 0#52 := by
        intro heq
        have hnat := congrArg BitVec.toNat heq
        rw [hmantissa, show (0#52).toNat = 0 from rfl] at hnat
        omega
      rw [if_neg (by simp only [Format.mantissaBits]; omega)]
      simp [UnpackedFloat.unpack, hmantissa, hzero, hbias]
  · rw [if_neg hfinite, if_pos (by norm_num; omega)]
    simp [UnpackedFloat.unpack, packedInfinity]

/-! ## Numbers -/

/-- A number with a sign in front. -/
def signed : Sign → Rat → Rat
  | .positive, q => q
  | .negative, q => -q

/-- The number that a double is, if it is finite. -/
def number? (x : Float) : Option Rat :=
  match x.toModel.unpack with
  | .zero _ => some 0
  | .finite sign m e _ => some (signed sign (m * twoPow e))
  | _ => none

section Number

variable {x y z : Float} {p q r : Rat} {sign : Sign}

theorem nearestDouble_signed (h : 0 ≤ q) (sign : Sign) :
    nearestDouble (signed sign q) = signed sign (roundToGrid q) := by
  cases sign with
  | positive => exact nearestDouble_of_nonneg h
  | negative => exact (nearestDouble_neg q).trans (congrArg _ (nearestDouble_of_nonneg h))

/-- The two ways of being a number. -/
theorem number?_eq_some_iff : number? x = some p ↔
    (∃ sign, x.toModel.unpack = .zero sign ∧ p = 0) ∨
      ∃ sign m e hm, x.toModel.unpack = .finite sign m e hm ∧ p = signed sign (m * twoPow e) := by
  unfold number?
  cases x.toModel.unpack with
  | infinity sign => simp
  | notANumber => simp
  | zero sign => simp [eq_comm]
  | finite sign m e hm => simp [eq_comm, hm]

theorem exists_number (h : x.isFinite = true) : ∃ p, number? x = some p := by
  replace h : x.toModel.unpack.isFinite = true := h
  unfold number?
  cases hx : x.toModel.unpack with
  | infinity sign => rw [hx] at h; cases h
  | notANumber => rw [hx] at h; cases h
  | zero sign => exact ⟨0, rfl⟩
  | finite sign m e hm => exact ⟨_, rfl⟩

theorem canonical_of_unpack {m : Nat} {e : Int} {hm : 0 < m}
    (h : x.toModel.unpack = .finite sign m e hm) :
    IsCanonical m e ∧ (m : Rat) * twoPow e < twoPow 1024 := by
  obtain ⟨hcanonical, he⟩ := of_unpack h
  refine ⟨hcanonical, ?_⟩
  calc (m : Rat) * twoPow e < ((2 ^ 53 : Int) : Rat) * twoPow e :=
        mul_lt_mul_of_pos_right (by exact_mod_cast hcanonical.lt) (twoPow_pos e)
    _ = twoPow (e + (53 : Nat)) := (twoPow_add_natCast e 53).symm
    _ ≤ twoPow 1024 := twoPow_le_twoPow.2 (by omega)

/-- A number that is a double is on the grid, and its magnitude below the least that overflows. -/
theorem of_number (h : number? x = some p) : |p| < twoPow 1024 ∧ nearestDouble p = p := by
  rcases number?_eq_some_iff.1 h with ⟨-, -, rfl⟩ | ⟨sign, m, e, hm, hunpack, rfl⟩
  · exact ⟨by simpa using twoPow_pos 1024, nearestDouble_zero⟩
  · obtain ⟨hcanonical, hlt⟩ := canonical_of_unpack hunpack
    have hpos := (mantissa_pos hm e).le
    refine ⟨?_, ?_⟩
    · cases sign <;> simpa [signed, abs_of_nonneg hpos] using hlt
    · rw [nearestDouble_signed hpos, hcanonical.roundToGrid_eq hm]

/-! ### Order -/

theorem IsCanonical.lt_of_lt {m m' : Nat} {e e' : Int} (h : IsCanonical m e)
    (h' : IsCanonical m' e') (hlt : e < e') : (m : Rat) * twoPow e < m' * twoPow e' := by
  have hle := h.le
  have hfull : 2 ^ 52 ≤ m' := h'.full.resolve_right (by omega)
  calc (m : Rat) * twoPow e < ((2 ^ 53 : Int) : Rat) * twoPow e :=
        mul_lt_mul_of_pos_right (by exact_mod_cast h.lt) (twoPow_pos e)
    _ = twoPow (e + (53 : Nat)) := (twoPow_add_natCast e 53).symm
    _ ≤ twoPow (e' + (52 : Nat)) := twoPow_le_twoPow.2 (by omega)
    _ = ((2 ^ 52 : Int) : Rat) * twoPow e' := twoPow_add_natCast e' 52
    _ ≤ m' * twoPow e' :=
        mul_le_mul_of_nonneg_right (by exact_mod_cast hfull) (twoPow_pos e').le

theorem isLE_compare_iff {m m' : Nat} {e e' : Int} (h : IsCanonical m e)
    (h' : IsCanonical m' e') : ((compare e e').then (compare m m')).isLE = true ↔
      (m : Rat) * twoPow e ≤ m' * twoPow e' := by
  rcases lt_trichotomy e e' with hlt | rfl | hgt
  · rw [compare_lt_iff_lt.2 hlt]
    exact iff_of_true rfl (h.lt_of_lt h' hlt).le
  · rw [compare_eq_iff_eq.2 rfl, mul_le_mul_iff_left₀ (twoPow_pos e), Nat.cast_le]
    exact Nat.isLE_compare
  · rw [compare_gt_iff_gt.2 hgt]
    exact iff_of_false Bool.false_ne_true (not_le.2 (h'.lt_of_lt h hgt))

theorem isLE_swap_iff {m m' : Nat} {e e' : Int} (h : IsCanonical m e)
    (h' : IsCanonical m' e') : ((compare e e').then (compare m m')).swap.isLE = true ↔
      (m' : Rat) * twoPow e' ≤ m * twoPow e := by
  rw [Ordering.swap_then, ← Std.OrientedOrd.eq_swap, ← Std.OrientedOrd.eq_swap]
  exact isLE_compare_iff h' h

theorem le_iff_le_unpack : x ≤ y ↔ x.toModel.unpack.le y.toModel.unpack = true :=
  decide_eq_true_iff

/-- Doubles are in the order of the numbers. -/
theorem le_iff (hx : number? x = some p) (hy : number? y = some q) : x ≤ y ↔ p ≤ q := by
  rw [le_iff_le_unpack]
  rcases number?_eq_some_iff.1 hx with ⟨sign, hx', rfl⟩ | ⟨sign, m, e, hm, hx', rfl⟩ <;>
    rcases number?_eq_some_iff.1 hy with ⟨sign', hy', rfl⟩ | ⟨sign', m', e', hm', hy', rfl⟩ <;>
    rw [hx', hy']
  · exact iff_of_true rfl le_rfl
  · have hpos := mantissa_pos hm' e'
    cases sign' with
    | positive => exact iff_of_true rfl hpos.le
    | negative => exact iff_of_false Bool.false_ne_true (by simp only [signed]; linarith)
  · have hpos := mantissa_pos hm e
    cases sign with
    | positive => exact iff_of_false Bool.false_ne_true (not_le.2 hpos)
    | negative => exact iff_of_true rfl (by simp only [signed]; linarith)
  · have hpos := mantissa_pos hm e
    have hpos' := mantissa_pos hm' e'
    have hcanonical := (canonical_of_unpack hx').1
    have hcanonical' := (canonical_of_unpack hy').1
    cases sign <;> cases sign'
    · exact (isLE_swap_iff hcanonical hcanonical').trans neg_le_neg_iff.symm
    · exact iff_of_true rfl (by simp only [signed]; linarith)
    · exact iff_of_false Bool.false_ne_true (by simp only [signed]; linarith)
    · exact isLE_compare_iff hcanonical hcanonical'

/-! ### Products -/

theorem unpack_mul (x y : Float) : (x * y).toModel.unpack =
    UnpackedFloat.unpack Format.binary64 (UnpackedFloat.pack Format.binary64
      (UnpackedFloat.mul Format.binary64 x.toModel.unpack y.toModel.unpack)) := rfl

theorem number?_eq_zero (h : x.toModel.unpack =
    UnpackedFloat.unpack Format.binary64 (UnpackedFloat.pack Format.binary64 (.zero sign))) :
    number? x = some 0 := by
  refine number?_eq_some_iff.2 (.inl ⟨sign, h.trans ?_, rfl⟩)
  cases sign <;> rfl

/-- The exact product of two canonical numbers is no coarser than the grid around it. -/
theorem IsCanonical.add_le_gridExponent {m m' : Nat} {e e' : Int} (hm : 0 < m) (hm' : 0 < m')
    (h : IsCanonical m e) (h' : IsCanonical m' e') :
    e + e' ≤ gridExponent ((m * m' : Nat) * twoPow (e + e')) := by
  have hpos : 0 < m * m' := Nat.mul_pos hm hm'
  have hfull : 2 ^ 52 ≤ m * m' ∨ e + e' ≤ -1074 := by
    rcases h.full with hfull | rfl
    · exact .inl (hfull.trans (Nat.le_mul_of_pos_right m hm'))
    · rcases h'.full with hfull | rfl
      · exact .inl (hfull.trans (Nat.le_mul_of_pos_left m' hm))
      · exact .inr (by decide)
  unfold gridExponent
  rw [binade_mantissa hpos]
  rcases hfull with hfull | hleast
  · have hlog : 52 ≤ (m * m').log2 := (Nat.le_log2 hpos.ne').2 hfull
    omega
  · omega

theorem signed_mul_signed (sign sign' : Sign) (p q : Rat) :
    signed sign p * signed sign' q = signed (sign * sign') (p * q) := by
  cases sign <;> cases sign'
  · exact neg_mul_neg p q
  · exact neg_mul p q
  · exact mul_neg p q
  · rfl

/-- The product of two numbers is the exact product, rounded, or infinite where that overflows. -/
theorem mul_cases (hx : number? x = some p) (hy : number? y = some q) :
    number? (x * y) = some (nearestDouble (p * q)) ∨
      ∃ sign, (x * y).toModel.unpack = .infinity sign ∧
        twoPow 1024 ≤ signed sign (nearestDouble (p * q)) := by
  have hzero : p * q = 0 → (∃ sign, UnpackedFloat.mul Format.binary64 x.toModel.unpack
      y.toModel.unpack = .zero sign) → number? (x * y) = some (nearestDouble (p * q)) := by
    rintro hpq ⟨sign, hmul⟩
    rw [hpq, nearestDouble_zero]
    exact number?_eq_zero (hmul ▸ unpack_mul x y)
  rcases number?_eq_some_iff.1 hx with ⟨sign, hx', rfl⟩ | ⟨sign, m, e, hm, hx', rfl⟩ <;>
    rcases number?_eq_some_iff.1 hy with ⟨sign', hy', rfl⟩ | ⟨sign', m', e', hm', hy', rfl⟩
  · exact .inl (hzero (zero_mul 0) ⟨sign * sign', by rw [hx', hy']; rfl⟩)
  · exact .inl (hzero (zero_mul _) ⟨sign * sign', by rw [hx', hy']; rfl⟩)
  · exact .inl (hzero (mul_zero _) ⟨sign * sign', by rw [hx', hy']; rfl⟩)
  · have hcanonical := (canonical_of_unpack hx').1
    have hcanonical' := (canonical_of_unpack hy').1
    have hproduct : (m : Rat) * twoPow e * (m' * twoPow e') =
        (m * m' : Nat) * twoPow (e + e') := by
      rw [twoPow_add]
      push_cast
      ring
    have hpos := mantissa_pos (Nat.mul_pos hm hm') (e + e')
    have hmul : UnpackedFloat.mul Format.binary64 x.toModel.unpack y.toModel.unpack =
        roundWithAccuracy Format.binary64 (sign * sign') (m * m') (e + e') .exact := by
      rw [hx', hy']
      rfl
    rw [signed_mul_signed, hproduct, nearestDouble_signed hpos.le]
    rcases roundWithAccuracy_eq (Nat.mul_pos hm hm')
      (hcanonical.add_le_gridExponent hm hm' hcanonical') (sign * sign') with
      ⟨hround, hvalue⟩ | ⟨r, t, hr, hround, hresult, hvalue⟩
    · left
      rw [hvalue, number?_eq_zero (hround ▸ hmul ▸ unpack_mul x y)]
      cases sign * sign' <;> simp [signed]
    · have hunpack : (x * y).toModel.unpack =
          if t ≤ 971 then .finite (sign * sign') r t hr else .infinity (sign * sign') := by
        rw [unpack_mul, hmul, hround, unpack_pack hr hresult]
      rw [hvalue]
      by_cases hfinite : t ≤ 971
      · rw [if_pos hfinite] at hunpack
        exact .inl (number?_eq_some_iff.2 (.inr ⟨_, r, t, hr, hunpack, rfl⟩))
      · rw [if_neg hfinite] at hunpack
        refine .inr ⟨_, hunpack, ?_⟩
        have hfull : 2 ^ 52 ≤ r := hresult.full.resolve_right (by omega)
        have hsame : signed (sign * sign') (signed (sign * sign') (r * twoPow t)) =
            r * twoPow t := by
          cases sign * sign' <;> simp [signed]
        rw [hsame]
        calc twoPow 1024 ≤ twoPow (t + (52 : Nat)) := twoPow_le_twoPow.2 (by omega)
          _ = ((2 ^ 52 : Int) : Rat) * twoPow t := twoPow_add_natCast t 52
          _ ≤ r * twoPow t :=
              mul_le_mul_of_nonneg_right (by exact_mod_cast hfull) (twoPow_pos t).le

/-- A product is compared with a number as the exact product is, rounded. -/
theorem mul_le_iff (hx : number? x = some p) (hy : number? y = some q)
    (hz : number? z = some r) : x * y ≤ z ↔ nearestDouble (p * q) ≤ r := by
  rcases mul_cases hx hy with hmul | ⟨sign, hmul, hover⟩
  · exact le_iff hmul hz
  · obtain ⟨hlow, hhigh⟩ := abs_lt.1 (of_number hz).1
    rw [le_iff_le_unpack, hmul]
    cases sign with
    | positive =>
      refine iff_of_false ?_ (not_le.2 (hhigh.trans_le hover))
      rcases number?_eq_some_iff.1 hz with ⟨sign, hz', -⟩ | ⟨sign, m, e, hm, hz', -⟩ <;>
        rw [hz'] <;> exact Bool.false_ne_true
    | negative =>
      simp only [signed] at hover
      refine iff_of_true ?_ (by linarith)
      rcases number?_eq_some_iff.1 hz with ⟨sign, hz', -⟩ | ⟨sign, m, e, hm, hz', -⟩ <;>
        rw [hz'] <;> rfl

theorem le_mul_iff (hx : number? x = some p) (hy : number? y = some q)
    (hz : number? z = some r) : z ≤ x * y ↔ r ≤ nearestDouble (p * q) := by
  rcases mul_cases hx hy with hmul | ⟨sign, hmul, hover⟩
  · exact le_iff hz hmul
  · obtain ⟨hlow, hhigh⟩ := abs_lt.1 (of_number hz).1
    rw [le_iff_le_unpack, hmul]
    cases sign with
    | positive =>
      refine iff_of_true ?_ (hhigh.le.trans hover)
      rcases number?_eq_some_iff.1 hz with ⟨sign, hz', -⟩ | ⟨sign, m, e, hm, hz', -⟩ <;>
        rw [hz'] <;> cases sign <;> rfl
    | negative =>
      simp only [signed] at hover
      refine iff_of_false ?_ (by linarith)
      rcases number?_eq_some_iff.1 hz with ⟨sign, hz', -⟩ | ⟨sign, m, e, hm, hz', -⟩ <;>
        rw [hz'] <;> cases sign <;> exact Bool.false_ne_true

end Number

end StoreBench.Numeric
