import Mathlib.Data.List.Nodup
import Mathlib.Data.Nat.GCD.Basic
import Mathlib.Tactic.Ring
import StoreBench.Benchmark
/-!
# The seeds of a phase

The clients of a phase start at multiples of a stride, the largest machine word divided by their
number. Within one family of clients the seeds differ. A phase with analytic and transactional
clients has two families with strides of their own, and those meet where a multiple of the one is a
multiple of the other: for any numbers of clients that a process can hold, exactly where the two
numbers have a common factor that is large enough and both divisions leave the same rest.
-/

namespace StoreBench

/-- The distance between the seeds of `threads` clients. -/
def seedStride (threads : Nat) : Nat := (UInt64.size - 1) / max threads 1

/-- The seeds of clients of one kind. -/
def phaseSeeds (base : UInt64) (threads : Nat) : List UInt64 :=
  (List.range threads).map fun index => seedFor base index threads

/-- The seeds of analytic and transactional clients. -/
def htapSeeds (base : UInt64) (analytic transactional : Nat) : List UInt64 :=
  phaseSeeds base analytic ++ (List.range transactional).map fun index =>
    seedFor base (analytic + index) (analytic + transactional)

/-! ## Strides -/

variable {threads m n i j : Nat}

theorem seedStride_pos (h : threads < UInt64.size) : 0 < seedStride threads := by
  refine Nat.div_pos ?_ (by omega)
  have : 1 < UInt64.size := by decide
  omega

/-- The offset of no client from the base exceeds a machine word. -/
theorem seedStride_mul_lt (h : i ≤ threads) : seedStride threads * i < UInt64.size := by
  have hle : seedStride threads * i ≤ UInt64.size - 1 := calc
    seedStride threads * i ≤ seedStride threads * max threads 1 :=
      Nat.mul_le_mul_left _ (by omega)
    _ ≤ UInt64.size - 1 := Nat.div_mul_le_self _ _
  have : 0 < UInt64.size := by decide
  omega

/-- Two clients have the same seed where their offsets from the base are the same. -/
theorem seedFor_eq_iff (base : UInt64) (hi : i ≤ m) (hj : j ≤ n) :
    seedFor base i m = seedFor base j n ↔ seedStride m * i = seedStride n * j := by
  constructor
  · intro h
    have hoffset : UInt64.ofNat (seedStride m * i) = UInt64.ofNat (seedStride n * j) :=
      (UInt64.add_right_inj base).1 h
    have htoNat := congrArg UInt64.toNat hoffset
    rwa [UInt64.toNat_ofNat_of_lt' (seedStride_mul_lt hi),
      UInt64.toNat_ofNat_of_lt' (seedStride_mul_lt hj)] at htoNat
  · intro h
    exact congrArg (fun offset => base + UInt64.ofNat offset) h

/-! ## One family -/

/-- Clients with one stride have different seeds. -/
theorem nodup_seeds_of_stride (base : UInt64) (first count : Nat) (hcount : first + count ≤ n)
    (hn : n < UInt64.size) :
    ((List.range count).map fun index => seedFor base (first + index) n).Nodup := by
  refine List.Nodup.map_on ?_ List.nodup_range
  intro i hi j hj hseed
  have hi' := List.mem_range.1 hi
  have hj' := List.mem_range.1 hj
  have hoffset := (seedFor_eq_iff base (by omega) (by omega)).1 hseed
  have := Nat.eq_of_mul_eq_mul_left (seedStride_pos hn) hoffset
  omega

theorem nodup_phaseSeeds (base : UInt64) (h : threads < UInt64.size) :
    (phaseSeeds base threads).Nodup := by
  simpa [phaseSeeds] using nodup_seeds_of_stride base 0 threads (by omega) h

/-! ## Two families -/

/-- Two families of seeds are apart as far as no offset is one of both. -/
theorem nodup_htapSeeds_iff_ne (base : UInt64) {a t : Nat} (h : a + t < UInt64.size) :
    (htapSeeds base a t).Nodup ↔
      ∀ i < a, ∀ j < t, seedStride a * i ≠ seedStride (a + t) * (a + j) := by
  have hanalytic : (phaseSeeds base a).Nodup := nodup_phaseSeeds base (by omega)
  have htransactional := nodup_seeds_of_stride base a t le_rfl h
  rw [htapSeeds, List.nodup_append]
  constructor
  · rintro ⟨-, -, hapart⟩ i hi j hj hoffset
    refine hapart _ (List.mem_map_of_mem (List.mem_range.2 hi)) _
      (List.mem_map_of_mem (List.mem_range.2 hj)) ?_
    exact (seedFor_eq_iff base (by omega) (by omega)).2 hoffset
  · intro hapart
    refine ⟨hanalytic, htransactional, ?_⟩
    intro seed hseed other hother hsame
    obtain ⟨i, hi, rfl⟩ := List.mem_map.1 hseed
    obtain ⟨j, hj, rfl⟩ := List.mem_map.1 hother
    have hi' := List.mem_range.1 hi
    have hj' := List.mem_range.1 hj
    exact hapart i hi' j hj' ((seedFor_eq_iff base (by omega) (by omega)).1 hsame)

/-- Multiples of two quotients of one number, which is large beside the divisors, are the same where
the multiples are in the proportion of the divisors and both divisions leave the same rest. -/
theorem div_mul_eq_div_mul_iff {M a n i k : Nat} (hM : n * n * n ≤ M) (ha : 0 < a) (han : a ≤ n)
    (hi : i ≤ a) (hk : k ≤ n) (hpos : 0 < k) :
    M / a * i = M / n * k ↔ i * n = k * a ∧ M % a = M % n := by
  have hn : 0 < n := Nat.lt_of_lt_of_le ha han
  -- Both sides times both divisors, with the rests taken out.
  have hleft : M / a * i * (a * n) + M % a * (i * n) = M * (i * n) := calc
    M / a * i * (a * n) + M % a * (i * n) = (M / a * a + M % a) * (i * n) := by ring
    _ = M * (i * n) := by rw [Nat.div_add_mod']
  have hright : M / n * k * (a * n) + M % n * (k * a) = M * (k * a) := calc
    M / n * k * (a * n) + M % n * (k * a) = (M / n * n + M % n) * (k * a) := by ring
    _ = M * (k * a) := by rw [Nat.div_add_mod']
  have hbound : ∀ d q r, d < n → q ≤ n → r ≤ n → d * (q * r) < M := by
    intro d q r hd hq hr
    calc d * (q * r) ≤ d * (n * n) := Nat.mul_le_mul_left d (Nat.mul_le_mul hq hr)
      _ < n * (n * n) := Nat.mul_lt_mul_of_pos_right hd (Nat.mul_pos hn hn)
      _ = n * n * n := by ring
      _ ≤ M := hM
  have hrest := hbound (M % a) i n (Nat.lt_of_lt_of_le (Nat.mod_lt M ha) han) (by omega) le_rfl
  have hrest' := hbound (M % n) k a (Nat.mod_lt M hn) hk han
  constructor
  · intro h
    rw [h] at hleft
    have hproportion : i * n = k * a := by
      rcases Nat.lt_trichotomy (i * n) (k * a) with hlt | heq | hgt
      · have := Nat.mul_le_mul_left M (Nat.succ_le_of_lt hlt)
        rw [Nat.mul_succ] at this
        omega
      · exact heq
      · have := Nat.mul_le_mul_left M (Nat.succ_le_of_lt hgt)
        rw [Nat.mul_succ] at this
        omega
    rw [hproportion] at hleft
    have hrests : M % a * (k * a) = M % n * (k * a) := by omega
    exact ⟨hproportion, Nat.eq_of_mul_eq_mul_right (Nat.mul_pos hpos ha) hrests⟩
  · rintro ⟨hproportion, hmod⟩
    rw [hproportion, hmod] at hleft
    exact Nat.eq_of_mul_eq_mul_right (Nat.mul_pos ha hn) (by omega)

/-- A number below `a` and one from `a` on below the sum are in the proportion of `a` and the sum
just where a common factor leaves room. -/
theorem exists_proportional_iff {a t : Nat} (ha : 0 < a) :
    (∃ i < a, ∃ j < t, i * (a + t) = (a + j) * a) ↔ a ≤ t * (Nat.gcd a t - 1) := by
  obtain ⟨a', t', hcoprime, ha', ht'⟩ := Nat.exists_coprime a t
  have hg : 0 < Nat.gcd a t := Nat.gcd_pos_of_pos_left t ha
  generalize Nat.gcd a t = g at ha' ht' hg
  have hpos : 0 < a' := by
    by_contra hzero
    simp [Nat.eq_zero_of_not_pos hzero] at ha'
    omega
  obtain ⟨s, rfl⟩ : ∃ s, g = s + 1 := ⟨g - 1, by omega⟩
  subst ha' ht'
  -- The room that is asked for, in lowest terms.
  have hroom : a' * (s + 1) ≤ t' * (s + 1) * s ↔ a' * (s + 1) ≤ (a' + t') * s := by
    rw [Nat.mul_right_comm, Nat.mul_le_mul_right_iff hg, Nat.add_mul, Nat.mul_succ]
    omega
  rw [Nat.add_sub_cancel, hroom]
  constructor
  · rintro ⟨i, hi, j, -, hproportion⟩
    have hreduced : i * (a' + t') = (a' * (s + 1) + j) * a' := by
      refine Nat.eq_of_mul_eq_mul_right hg ?_
      calc i * (a' + t') * (s + 1) = i * (a' * (s + 1) + t' * (s + 1)) := by ring
        _ = (a' * (s + 1) + j) * a' * (s + 1) := by rw [hproportion]; ring
    -- The lower one is a multiple of the reduced number, by a factor below the common one.
    obtain ⟨q, rfl⟩ : a' ∣ i :=
      (Nat.coprime_self_add_right.2 hcoprime).dvd_of_dvd_mul_right
        ⟨_, hreduced.trans (Nat.mul_comm _ _)⟩
    have hq : q ≤ s := by
      have := Nat.lt_of_mul_lt_mul_left hi
      omega
    have hupper : a' * (s + 1) + j = (a' + t') * q := by
      refine Nat.eq_of_mul_eq_mul_right hpos ?_
      rw [← hreduced]
      ring
    calc a' * (s + 1) ≤ a' * (s + 1) + j := Nat.le_add_right _ j
      _ = (a' + t') * q := hupper
      _ ≤ (a' + t') * s := Nat.mul_le_mul_left _ hq
  · intro hle
    refine ⟨a' * s, ?_, (a' + t') * s - a' * (s + 1), ?_, ?_⟩
    · exact Nat.mul_lt_mul_of_pos_left (Nat.lt_succ_self s) hpos
    · rw [Nat.add_mul, Nat.mul_succ] at hle ⊢
      rw [Nat.mul_succ]
      omega
    · rw [Nat.add_sub_cancel' hle]
      ring

/-- For as many clients as a process can hold the seeds meet just where the numbers of clients have
a common factor that leaves room and divide the largest machine word with the same rest. -/
theorem nodup_htapSeeds_iff_gcd (base : UInt64) {a t : Nat} (ha : 0 < a) (h : a + t ≤ 1 <<< 21) :
    (htapSeeds base a t).Nodup ↔
      ¬ (a ≤ t * (Nat.gcd a t - 1) ∧
        (UInt64.size - 1) % a = (UInt64.size - 1) % (a + t)) := by
  have hcube : (a + t) * (a + t) * (a + t) ≤ UInt64.size - 1 := calc
    (a + t) * (a + t) * (a + t) ≤ (1 <<< 21) * (1 <<< 21) * (1 <<< 21) :=
      Nat.mul_le_mul (Nat.mul_le_mul h h) h
    _ ≤ UInt64.size - 1 := by decide
  have hmeet : ∀ i < a, ∀ j < t, seedStride a * i = seedStride (a + t) * (a + j) ↔
      i * (a + t) = (a + j) * a ∧ (UInt64.size - 1) % a = (UInt64.size - 1) % (a + t) := by
    intro i hi j hj
    rw [seedStride, seedStride, Nat.max_eq_left ha, Nat.max_eq_left (by omega)]
    exact div_mul_eq_div_mul_iff hcube ha (by omega) (by omega) (by omega) (by omega)
  rw [nodup_htapSeeds_iff_ne base (Nat.lt_of_le_of_lt h (by decide)), ← exists_proportional_iff ha]
  constructor
  · rintro hapart ⟨⟨i, hi, j, hj, hproportion⟩, hrest⟩
    exact hapart i hi j hj ((hmeet i hi j hj).2 ⟨hproportion, hrest⟩)
  · intro hnone i hi j hj hsame
    obtain ⟨hproportion, hrest⟩ := (hmeet i hi j hj).1 hsame
    exact hnone ⟨⟨i, hi, j, hj, hproportion⟩, hrest⟩

/-- Clients of one kind have seeds of their own, and no offset exceeds a machine word. The seeds of
analytic and transactional clients are apart as far as the multiples of their strides are. For as
many clients as a process can hold this is decided by a common factor of their numbers and the rests
they leave. -/
theorem seeds_apart_iff (base : UInt64) (threads analytic transactional : Nat)
    (hthreads : threads < UInt64.size) (hanalytic : 0 < analytic)
    (hphase : analytic + transactional < UInt64.size) :
    (phaseSeeds base threads).Nodup ∧
      (∀ index ≤ threads, seedStride threads * index < UInt64.size) ∧
      ((htapSeeds base analytic transactional).Nodup ↔
        ∀ i < analytic, ∀ j < transactional,
          seedStride analytic * i ≠ seedStride (analytic + transactional) * (analytic + j)) ∧
      (analytic + transactional ≤ 1 <<< 21 →
        ((htapSeeds base analytic transactional).Nodup ↔
          ¬ (analytic ≤ transactional * (Nat.gcd analytic transactional - 1) ∧
            (UInt64.size - 1) % analytic = (UInt64.size - 1) % (analytic + transactional)))) :=
  ⟨nodup_phaseSeeds base hthreads, fun _ => seedStride_mul_lt, nodup_htapSeeds_iff_ne base hphase,
    nodup_htapSeeds_iff_gcd base hanalytic⟩

/-- Three analytic and eleven transactional clients have seeds of their own. -/
theorem seeds_apart_three_eleven : (htapSeeds 0 3 11).Nodup := by
  obtain ⟨-, -, -, hgcd⟩ := seeds_apart_iff 0 1 3 11 (by decide) (by decide) (by decide)
  exact (hgcd (by decide)).2 (by decide)

/-- The second of three analytic clients and the third of twelve transactional ones beside them have
the same seed. -/
theorem seeds_meet_three_twelve :
    seedFor 0 1 3 = seedFor 0 (3 + 2) (3 + 12) ∧ ¬ (htapSeeds 0 3 12).Nodup := by
  decide

end StoreBench
