import Mathlib.Algebra.BigOperators.Fin
import StoreBench.Pacing.RateLimiter
import StoreBench.Proofs.Refills
import StoreBench.Proofs.Searches
/-!
# Shares add up

The shares of a total are its quotient by the number of parts, with one more for as many of the
first parts as the remainder counts. So they add up to the total, never grow with the index and
differ by one at most. A rate split all at once gives the same shares in the same order, whenever
each part gets something and memory holds the shares; and for each share there is a limiter.
-/

namespace StoreBench

variable {total parts i j : Nat}

/-! ## Single shares -/

/-- The shares of all parts add up. -/
theorem sum_share (total : Nat) {parts : Nat} (h : 0 < parts) :
    ∑ i : Fin parts, share total i parts = total := by
  have hle : total % parts ≤ parts := Nat.le_of_lt (Nat.mod_lt total h)
  simp only [share, Finset.sum_add_distrib, Fin.sum_const, smul_eq_mul, Finset.sum_boole]
  rw [Fin.card_filter_val_lt, Nat.min_eq_right hle, Nat.cast_id, Nat.div_add_mod]

theorem share_anti (total parts : Nat) (h : i ≤ j) :
    share total j parts ≤ share total i parts := by
  unfold share
  split <;> split <;> omega

theorem share_le_succ (total parts i j : Nat) :
    share total i parts ≤ share total j parts + 1 := by
  unfold share
  split <;> split <;> omega

theorem share_pos (h : 0 < parts) (hle : parts ≤ total) (i : Nat) : 0 < share total i parts :=
  Nat.lt_of_lt_of_le (Nat.div_pos hle h) (Nat.le_add_right _ _)

/-- No share is larger than the total. -/
theorem share_le_total (h : 0 < parts) (i : Nat) : share total i parts ≤ total := by
  have htotal : parts * (total / parts) + total % parts = total := Nat.div_add_mod total parts
  have hquotient : total / parts ≤ parts * (total / parts) := Nat.le_mul_of_pos_left _ h
  unfold share
  split <;> omega

/-! ## All shares at once -/

def shares (total parts : Nat) : List Nat := (List.range parts).map (share total · parts)

@[simp] theorem length_shares (total parts : Nat) : (shares total parts).length = parts := by
  simp [shares]

theorem sum_shares (total : Nat) (h : 0 < parts) : (shares total parts).sum = total := by
  have hrange : ∑ i ∈ Finset.range parts, share total i parts = total :=
    (Fin.sum_univ_eq_sum_range (share total · parts) parts).symm.trans (sum_share total h)
  exact hrange

theorem pos_of_mem_shares (h : 0 < parts) (hle : parts ≤ total) {rate : Nat}
    (hrate : rate ∈ shares total parts) : 0 < rate := by
  obtain ⟨i, -, rfl⟩ := List.mem_map.1 hrate
  exact share_pos h hle i

theorem replicate_append_replicate (total : Nat) (h : 0 < parts) :
    List.replicate (total % parts) (total / parts + 1) ++
      List.replicate (parts - total % parts) (total / parts) = shares total parts := by
  have hlt : total % parts < parts := Nat.mod_lt total h
  refine List.ext_getElem ?_ fun i hi hi' => ?_
  · simp
    omega
  · simp only [shares, List.getElem_map, List.getElem_range, share, List.getElem_append,
      List.length_replicate, List.getElem_replicate]
    split <;> rfl

theorem checkSplit_eq_ok_iff [Machine] :
    checkSplit total parts = .ok () ↔ 0 < parts ∧ parts ≤ total ∧ FitsMemory parts 8 := by
  unfold checkSplit
  split
  · simp_all
  · split
    · simp; omega
    · rw [reserve_eq_ok_iff]
      omega

/-- A rate that leaves something for each part is not split only for want of memory. -/
theorem splitRate?_eq_error_iff [Machine] (h : 0 < parts) (hle : parts ≤ total)
    {failure : FailureOf Misconfiguration} :
    splitRate? total parts = .error failure ↔
      failure = .fault ∧ blockLimit ≤ parts * 8 ∨
        failure = .exhausted ∧ parts * 8 < blockLimit ∧ ¬FitsMemory parts 8 := by
  have hcheck : checkSplit total parts = reserve parts 8 := by
    rw [checkSplit, if_neg (Nat.ne_of_gt h), if_neg (Nat.not_lt.2 hle)]
  rw [splitRate?, hcheck, ← reserve_eq_error_iff]
  cases (reserve parts 8 : Except (FailureOf Misconfiguration) Unit) with
  | error failure' => simp [bind, Except.bind]
  | ok _ => simp [bind, Except.bind, pure, Except.pure]

theorem splitRate?_eq_ok_iff [Machine] {split : List Nat} :
    splitRate? total parts = .ok split ↔
      (0 < parts ∧ parts ≤ total ∧ FitsMemory parts 8) ∧ split = shares total parts := by
  rw [splitRate?, bind_eq_ok_iff, ← checkSplit_eq_ok_iff]
  constructor
  · rintro ⟨⟨⟩, hcheck, hsplit⟩
    have hpos := (checkSplit_eq_ok_iff.1 hcheck).1
    cases hsplit
    exact ⟨hcheck, replicate_append_replicate total hpos⟩
  · rintro ⟨hcheck, rfl⟩
    have hpos := (checkSplit_eq_ok_iff.1 hcheck).1
    exact ⟨(), hcheck, congrArg Except.ok (replicate_append_replicate total hpos)⟩

/-! ## A limiter for each share -/

theorem RateLimiter.forThreads?_eq [Machine] (h : 0 < parts) (hle : parts ≤ total)
    (hfits : FitsMemory parts 8) :
    forThreads? total parts = .ok ((shares total parts).map (fresh · 1)) := by
  rw [forThreads?, bind_eq_ok_iff]
  refine ⟨_, splitRate?_eq_ok_iff.2 ⟨⟨h, hle, hfits⟩, rfl⟩, ?_⟩
  rw [mapM_eq_ok_iff_forall₂, List.forall₂_map_right_iff, List.forall₂_same]
  intro rate hrate
  rw [ofRate?_of_pos (pos_of_mem_shares h hle hrate)]
  rfl

/-! ## Fair splits -/

/-- A total is split fairly: into shares that add up to it, never grow with the index, differ by one
at most and stay within the total. A rate is split exactly if each part gets something and memory
holds the shares, into those very shares, none of which is zero; and there is a limiter for each. If
each part gets something, then shares that no block of memory holds are a fault, and shares that
only this machine does not hold end the process. -/
theorem splits_fairly [Machine] (total parts : Nat) :
    (0 < parts →
      ∑ i : Fin parts, share total i parts = total ∧
      (∀ i j, i ≤ j → share total j parts ≤ share total i parts) ∧
      (∀ i j, share total i parts ≤ share total j parts + 1) ∧
      ∀ i, share total i parts ≤ total) ∧
    (∀ split, splitRate? total parts = .ok split ↔
      (0 < parts ∧ parts ≤ total ∧ FitsMemory parts 8) ∧
        split = (List.range parts).map fun i => share total i parts) ∧
    (0 < parts → parts ≤ total → ∀ failure, splitRate? total parts = .error failure ↔
      failure = .fault ∧ blockLimit ≤ parts * 8 ∨
        failure = .exhausted ∧ parts * 8 < blockLimit ∧ ¬FitsMemory parts 8) ∧
    ∀ split, splitRate? total parts = .ok split →
      (∀ rate ∈ split, 1 ≤ rate) ∧
      ∃ limiters, RateLimiter.forThreads? total parts = .ok limiters ∧
        limiters.length = parts ∧
        List.Forall₂ (fun rate l => RateLimiter.ofRate? rate 1 = .ok l) split limiters := by
  refine ⟨fun h => ⟨sum_share total h, fun i j => share_anti total parts,
    share_le_succ total parts, share_le_total h⟩, fun split => splitRate?_eq_ok_iff,
    fun h hle _ => splitRate?_eq_error_iff h hle, fun split hsplit => ?_⟩
  obtain ⟨⟨h, hle, hfits⟩, rfl⟩ := splitRate?_eq_ok_iff.1 hsplit
  have hrates : ∀ rate ∈ shares total parts, 0 < rate := fun rate => pos_of_mem_shares h hle
  refine ⟨hrates, _, RateLimiter.forThreads?_eq h hle hfits, by simp, ?_⟩
  rw [List.forall₂_map_right_iff, List.forall₂_same]
  exact fun rate hrate => RateLimiter.ofRate?_of_pos (hrates rate hrate) 1

section

attribute [local instance] Machine.largest

/-- The largest rate of all, split across four threads. -/
theorem splits_fairly_largest :
    (0 < 4 ∧ 4 ≤ 18446744073709551615 ∧ FitsMemory 4 8) ∧
      ∑ i : Fin 4, share 18446744073709551615 i 4 = 18446744073709551615 ∧
      splitRate? 18446744073709551615 4 = .ok [4611686018427387904, 4611686018427387904,
        4611686018427387904, 4611686018427387903] ∧
      ∃ limiters, RateLimiter.forThreads? 18446744073709551615 4 = .ok limiters ∧
        limiters.length = 4 := by
  have hsplits : 0 < 4 ∧ 4 ≤ 18446744073709551615 ∧ FitsMemory 4 8 := by decide
  obtain ⟨hshares, hsplit, -, hlimiters⟩ := splits_fairly 18446744073709551615 4
  have hok := (hsplit _).2 ⟨hsplits, rfl⟩
  obtain ⟨-, limiters, hforThreads, hlength, -⟩ := hlimiters _ hok
  exact ⟨hsplits, (hshares hsplits.1).1, hok, limiters, hforThreads, hlength⟩

/-- No block of memory holds the shares of the largest number of threads, not even where there is
room for every block. -/
theorem widest_split_faults :
    (1 ≤ 18446744073709551615 ∧ 18446744073709551615 ≤ 18446744073709551615) ∧
      splitRate? 18446744073709551615 18446744073709551615 = .error .fault ∧
      RateLimiter.forThreads? 18446744073709551615 18446744073709551615 = .error .fault := by
  have hsplit : splitRate? 18446744073709551615 18446744073709551615 = .error .fault :=
    (splitRate?_eq_error_iff (by decide) le_rfl).2 (.inl ⟨rfl, by decide⟩)
  refine ⟨by decide, hsplit, ?_⟩
  rw [RateLimiter.forThreads?, hsplit]
  rfl

end

end StoreBench
