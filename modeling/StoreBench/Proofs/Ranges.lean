import Mathlib.Order.Bounds.Defs
import StoreBench.Failure
import StoreBench.Proofs.Rounding
import StoreBench.Skew.DistinctPool
/-!
# Ranges of a pool

The ends of a window are rounded apart from each other, at every step by the same monotone
roundings, so they stay in order. The tail of a skewed pool starts at the largest index from which
on there is enough mass. Either way a pool draws ranges of indices that are in order and below its
size, so the values at their ends are in order too.
-/

namespace StoreBench.Skew

open Numeric StoreBench.Random

/-! ## Windows -/

theorem window_le (n : Nat) {rate : Rat} (hrate : 0 ≤ rate) (u : Rat) :
    (window n rate u).1 ≤ (window n rate u).2 := by
  simp only [window]
  generalize hspan : roundToDouble (1 - rate) = span
  generalize hreached : roundToDouble (u * span) = reached
  generalize hstart : (if reached ≤ span then reached else span) = start
  -- Where the window starts was rounded, so rounding what lies behind it does not come before it.
  have hdouble : roundToDouble start = start := by
    rw [← hstart]
    split
    · rw [← hreached, roundToDouble_roundToDouble]
    · rw [← hspan, roundToDouble_roundToDouble]
  have hstop : start ≤ roundToDouble (start + rate) := by
    calc start = roundToDouble start := hdouble.symm
      _ ≤ roundToDouble (start + rate) := roundToDouble_mono (le_add_of_nonneg_right hrate)
  have hscaled : start * roundToDouble n ≤ roundToDouble (start + rate) * roundToDouble n :=
    mul_le_mul_of_nonneg_right hstop (roundToDouble_nonneg n)
  exact min_le_min_right _ (roundHalfUp_mono (roundToDouble_mono hscaled))

/-! ## Tails -/

/-- The mass of the ranks from `n` down to `t + 1`, added in this order. -/
def tailMass (theta : Float) (n t : Nat) : Float :=
  (List.range' (t + 1) (n - t)).foldr
    (fun rank mass => mass + 1.0 / rank.toFloat.pow theta / zeta n theta) 0.0

/-- The indices from which on the mass reaches a rate. -/
def massive (theta rate : Float) (n : Nat) : Set Nat := {t | t < n ∧ rate ≤ tailMass theta n t}

/-- The tail starts at the largest index from which on the mass reaches the rate, and with all the
ranks if there is none. -/
def IsTailStart (theta rate : Float) (n t : Nat) : Prop :=
  IsGreatest (massive theta rate n) t ∨ massive theta rate n = ∅ ∧ t = 0

section Tails

variable {theta rate : Float} {n k : Nat}

@[simp] theorem tailMass_self : tailMass theta n n = 0.0 := by simp [tailMass]

theorem tailMass_of_lt (h : k < n) :
    tailMass theta n k =
      tailMass theta n (k + 1) + 1.0 / (k + 1).toFloat.pow theta / zeta n theta := by
  rw [tailMass, show n - k = n - (k + 1) + 1 by omega, List.range'_succ]
  rfl

theorem isTailStart_tailStart (hk : k ≤ n) (hnone : ∀ t ∈ massive theta rate n, t < k) :
    IsTailStart theta rate n (tailStart theta (zeta n theta) rate k (tailMass theta n k)) := by
  induction k with
  | zero =>
    refine .inr ⟨Set.eq_empty_of_forall_notMem fun t ht => ?_, rfl⟩
    exact absurd (hnone t ht) (Nat.not_lt_zero t)
  | succ k ih =>
    rw [tailStart, ← tailMass_of_lt hk]
    split
    · next hreaches => exact .inl ⟨⟨hk, hreaches⟩, fun t ht => Nat.le_of_lt_succ (hnone t ht)⟩
    · next hless =>
      refine ih (Nat.le_of_lt hk) fun t ht => ?_
      rcases Nat.lt_succ_iff_lt_or_eq.1 (hnone t ht) with hlt | rfl
      · exact hlt
      · exact absurd ht.2 hless

theorem isTailStart_zipfianTail : IsTailStart theta rate n (zipfianTail n theta rate) := by
  rw [zipfianTail, ← tailMass_self]
  exact isTailStart_tailStart le_rfl fun t ht => ht.1

end Tails

/-! ## Pools -/

namespace DistinctPool

section Values

variable {pool : DistinctPool} {i j : Nat}

theorem valueAt_lt (hi : i < pool.size) (hj : j < pool.size) (h : i < j) :
    pool.valueAt i hi < pool.valueAt j hj := by
  have hascending := List.pairwise_iff_getElem.1 pool.ascending i j
    (by rwa [Array.length_toList]) (by rwa [Array.length_toList]) h
  rwa [Array.getElem_toList, Array.getElem_toList] at hascending

/-- Values are ordered as their indices are. -/
theorem valueAt_le_iff (hi : i < pool.size) (hj : j < pool.size) :
    pool.valueAt i hi ≤ pool.valueAt j hj ↔ i ≤ j := by
  constructor
  · intro hle
    by_contra hgt
    exact List.not_lt.2 hle (valueAt_lt hj hi (Nat.not_le.1 hgt))
  · intro hle
    rcases Nat.lt_or_eq_of_le hle with hlt | rfl
    · exact List.le_of_lt (valueAt_lt hi hj hlt)
    · exact List.le_refl _

end Values

/-- What a pool has of the arguments it was constructed with. -/
structure IsMadeOf (pool : DistinctPool) (n : Nat) (rate : Float) (chooser : Option RankChooser)
    (zipfian : Bool) : Prop where
  size_eq : pool.size = n
  chooser_eq : chooser = some pool.chooser
  tail_eq : tail? n rate pool.chooser zipfian = .ok pool.tail

variable {σ : Type} [ChoosesLengths σ] {n : Nat} {length : σ} {rate : Float}
  {chooser : Option RankChooser} {zipfian : Bool} {s rest : Stream} {pool : DistinctPool}

theorem isMadeOf_of_construct (h : (construct n length rate chooser zipfian s).result =
    .ok (pool, rest)) : pool.IsMadeOf n rate chooser zipfian := by
  unfold construct at h
  split at h
  case isFalse => cases h
  case isTrue hn =>
    split at h
    case h_1 => cases h
    case h_2 => cases h
    case h_3 ranks exact =>
      split at h
      case isFalse => cases h
      case isTrue hranks =>
        split at h
        case h_1 => cases h
        case h_2 tail htail =>
          dsimp only at h
          split at h
          case h_1 => cases h
          case h_2 values hvalues =>
            cases h
            have hsize := (collect_ascending hvalues).2
            exact ⟨by simpa [size] using hsize, rfl, htail⟩

variable (pool) in
/-- The range drawn next has its ends in order and below `n`, and the values there are in order. -/
structure DrawsRange (n : Nat) (s : Stream) : Prop where
  ordered : (pool.pickIndices s).1.1 ≤ (pool.pickIndices s).1.2
  below : (pool.pickIndices s).1.2 < n
  values : ∃ low high : Bytes, low ≤ high ∧
    pool.values[(pool.pickIndices s).1.1]? = some low ∧
    pool.values[(pool.pickIndices s).1.2]? = some high ∧
    ∀ ι : Interface, ∃ sensor, pool.nextRange (ι := ι) s =
      .note (.click sensor) (.done ((low, high), (pool.pickIndices s).2))

theorem pickIndices_le (s : Stream) : (pool.pickIndices s).1.1 ≤ (pool.pickIndices s).1.2 := by
  rw [pickIndices]
  split
  · next t ht => exact Nat.le_sub_one_of_lt (pool.tail_lt t ht)
  · exact window_le _ pool.exactRate_mem.1.le _

theorem drawsRange (s : Stream) : pool.DrawsRange pool.size s := by
  obtain ⟨hlow, hhigh⟩ := pool.pickIndices_lt s
  have hle := pool.pickIndices_le s
  refine ⟨hle, hhigh, pool.valueAt _ hlow, pool.valueAt _ hhigh, ?_, ?_, ?_, fun ι => ⟨_, rfl⟩⟩
  · exact (valueAt_le_iff hlow hhigh).2 hle
  · exact Array.getElem?_eq_getElem hlow
  · exact Array.getElem?_eq_getElem hhigh

/-- A pool that was constructed draws valid ranges from any stream. Where its ranges are Zipfian,
they are always the one tail whose mass reaches the rate, and nothing is drawn. -/
theorem valid_ranges (h : (construct n length rate chooser zipfian s).result = .ok (pool, rest)) :
    pool.size = n ∧ (∀ drawn, pool.DrawsRange n drawn) ∧
      (zipfian = true → ∃ ranks theta t, chooser = some ranks ∧ ranks.theta? = some theta ∧
        IsTailStart theta rate n t ∧ ∀ drawn, pool.pickIndices drawn = ((t, n - 1), drawn)) := by
  obtain ⟨rfl, hchooser, htail⟩ := isMadeOf_of_construct h
  refine ⟨rfl, fun drawn => pool.drawsRange drawn, ?_⟩
  rintro rfl
  rw [tail?, if_pos rfl] at htail
  split at htail
  · cases htail
  · next theta htheta =>
    refine ⟨_, theta, _, hchooser, htheta, isTailStart_zipfianTail, fun drawn => ?_⟩
    rw [pickIndices, ← Except.ok.inj htail]

/-- The tail of three values under a law for two ranks. -/
theorem valid_ranges_three : ∃ law pool rest, Zipf.ofTheta? 2 0.5 = .ok law ∧
    (construct 3 (LengthChooser.constant 2) 0.5 (some (.zipfian law)) true (.ofSeed 0)).result =
      .ok (pool, rest) ∧
    pool.size = 3 ∧ (∀ drawn, pool.DrawsRange 3 drawn) ∧
    ∃ t, IsTailStart 0.5 0.5 3 t ∧ ∀ drawn, pool.pickIndices drawn = ((t, 2), drawn) := by
  have hconstructed : ((Zipf.ofTheta? 2 0.5).toOption.any fun law =>
      (construct 3 (LengthChooser.constant 2) 0.5 (some (.zipfian law)) true
        (.ofSeed 0)).result.toOption.any fun _ => true) = true := by decide +kernel
  obtain ⟨law, hlaw, hconstructed⟩ := exists_ok_of_any hconstructed
  obtain ⟨⟨pool, rest⟩, hpool, -⟩ := exists_ok_of_any hconstructed
  obtain ⟨hsize, hranges, htail⟩ := valid_ranges hpool
  obtain ⟨ranks, theta, t, hranks, htheta, hstart, hsame⟩ := htail rfl
  cases hranks
  cases htheta
  rw [(Zipf.of_ofTheta? hlaw).2] at hstart
  exact ⟨law, pool, rest, hlaw, hpool, hsize, hranges, t, hstart, hsame⟩

end DistinctPool

end StoreBench.Skew
