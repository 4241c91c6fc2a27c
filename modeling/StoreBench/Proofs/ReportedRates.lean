import Mathlib.Data.Nat.Cast.Order.Field
import StoreBench.Proofs.Shares
/-!
# Reported rates

A limiter keeps the refill found for its rate, not the rate. What it reports is what the whole
intervals in a second add up to, and there may be more of those than refills were asked for, as the
interval was cut down. So a rate is reported exactly if its refills come out even and one more
refill per second would have had a shorter interval, which is so for all rates up to 31622. Other
rates are reported less than a refill too low and less than one part in 999 too high.
-/

namespace StoreBench

open Numeric

/-- Cutting twice gives back a divisor exactly if its successor would have been cut further. -/
theorem div_div_eq_iff {n k : Nat} (hk : 0 < k) (hle : k ≤ n) :
    n / (n / k) = k ↔ n / (k + 1) < n / k := by
  have hpos : 0 < n / k := Nat.div_pos hle hk
  have hback : k ≤ n / (n / k) := (Nat.le_div_iff_mul_le hpos).2 (Nat.mul_div_le n k)
  calc n / (n / k) = k ↔ n / (n / k) < k + 1 := by omega
    _ ↔ n < (k + 1) * (n / k) := Nat.div_lt_iff_lt_mul hpos
    _ ↔ n < n / k * (k + 1) := by rw [Nat.mul_comm]
    _ ↔ n / (k + 1) < n / k := (Nat.div_lt_iff_lt_mul (Nat.succ_pos k)).symm

variable {rate : Nat}

namespace Refill

/-- The whole intervals in a second. -/
def intervals (rate : Nat) : Nat := 1000000000 / (ofRate rate).interval

theorem rate_ofRate (h : 0 < rate) :
    (ofRate rate).rate = (ofRate rate).amount * intervals rate := by
  rw [Refill.rate, intervals, Nat.max_eq_left (interval_pos h)]

theorem frequency_le_intervals (h : 0 < rate) : frequency rate ≤ intervals rate :=
  (Nat.le_div_iff_mul_le (interval_pos h)).2 (frequency_mul_interval h).1

theorem intervals_le (h : 0 < rate) : intervals rate ≤ 1000000 :=
  Nat.div_le_div_left (interval_mem h).1 (by decide)

/-! ## Near the rate -/

theorem lt_rate_ofRate (h : 0 < rate) : rate < (ofRate rate).rate + (ofRate rate).amount := by
  rw [rate_ofRate h]
  calc rate < frequency rate * (ofRate rate).amount + (ofRate rate).amount :=
        (frequency_mul_amount h).2
    _ ≤ intervals rate * (ofRate rate).amount + (ofRate rate).amount := by
        gcongr
        exact frequency_le_intervals h
    _ = (ofRate rate).amount * intervals rate + (ofRate rate).amount := by rw [Nat.mul_comm]

theorem rate_ofRate_le_sustained (h : 0 < rate) :
    ((ofRate rate).rate : Rat) ≤ (ofRate rate).sustained := by
  have hcut : (intervals rate : Rat) ≤ 1000000000 / (ofRate rate).interval := by
    exact_mod_cast (Nat.cast_div_le : ((1000000000 / (ofRate rate).interval : Nat) : Rat) ≤ _)
  rw [rate_ofRate h, sustained, Nat.cast_mul, mul_div_assoc]
  exact mul_le_mul_of_nonneg_left hcut (Nat.cast_nonneg _)

theorem rate_ofRate_lt (h : 0 < rate) : 999 * (ofRate rate).rate < 1000 * rate := by
  have hlt := (rate_ofRate_le_sustained h).trans_lt (sustained_lt h)
  rw [lt_div_iff₀ (by norm_num)] at hlt
  have : (ofRate rate).rate * 999 < rate * 1000 := by exact_mod_cast hlt
  omega

/-! ## Exactly the rate -/

theorem rate_ofRate_eq_iff (h : 0 < rate) :
    (ofRate rate).rate = rate ↔ (ofRate rate).amount ∣ rate ∧
      1000000000 / (frequency rate + 1) < 1000000000 / frequency rate := by
  have hpos := amount_pos h
  have hle : frequency rate ≤ 1000000000 := (frequency_le h).trans (by decide)
  rw [← div_div_eq_iff (frequency_pos h) hle, ← interval_ofRate, rate_ofRate h]
  constructor
  · intro heq
    refine ⟨⟨_, heq.symm⟩, ?_⟩
    calc intervals rate = (ofRate rate).amount * intervals rate / (ofRate rate).amount :=
          (Nat.mul_div_cancel_left _ hpos).symm
      _ = frequency rate := by rw [heq, frequency]
  · rintro ⟨hdvd, heq⟩
    rw [intervals, heq]
    exact Nat.mul_div_cancel' hdvd

/-- Up to the root of a second's nanoseconds, each rate has an interval of its own. -/
theorem rate_ofRate_of_le (h : 0 < rate) (hle : rate ≤ 31622) : (ofRate rate).rate = rate := by
  have hone : (ofRate rate).amount = 1 := amount_eq_one h (hle.trans (by decide))
  have hfrequency : frequency rate = rate := by rw [frequency, hone, Nat.div_one]
  have hsquare : rate * rate ≤ 1000000000 := (Nat.mul_le_mul hle hle).trans (by decide)
  rw [rate_ofRate_eq_iff h, hone, hfrequency]
  refine ⟨Nat.one_dvd _, (Nat.div_lt_iff_lt_mul (Nat.succ_pos _)).2 ?_⟩
  calc 1000000000 < rate * (1000000000 / rate + 1) := Nat.lt_mul_div_succ _ h
    _ = 1000000000 / rate * rate + rate := by rw [Nat.mul_succ, Nat.mul_comm]
    _ ≤ 1000000000 / rate * rate + 1000000000 / rate :=
        Nat.add_le_add_left ((Nat.le_div_iff_mul_le h).2 hsquare) _
    _ = 1000000000 / rate * (rate + 1) := (Nat.mul_succ _ _).symm

/-! ## Within a machine word -/

/-- The bound is the largest number of a machine word rounded down to whole millions. -/
theorem rate_ofRate_fits (h : 0 < rate) (hle : rate ≤ 18446744073709000000) :
    (ofRate rate).rate < UInt64.size := by
  have hlargest : millions 18446744073709000000 ≤ 18446744073709 := by decide +kernel
  have hmillions := (millions_mono hle).trans hlargest
  have hlt : ((ofRate rate).amount : Rat) < 18446744073710 := by linarith [(amount_mem h).2]
  have hamount : (ofRate rate).amount < 18446744073710 := by exact_mod_cast hlt
  rw [rate_ofRate h]
  calc (ofRate rate).amount * intervals rate ≤ 18446744073709 * 1000000 :=
        Nat.mul_le_mul (by omega) (intervals_le h)
    _ < UInt64.size := by decide

end Refill

/-! ## Reports of limiters -/

/-- How the rate that is reported reflects the rate that was given. -/
structure Reflects (reported rate : Nat) : Prop where
  /-- What a refill adds, times the whole intervals in a second. -/
  eq_mul : reported = (Refill.ofRate rate).amount * (1000000000 / (Refill.ofRate rate).interval)
  near : rate < reported + (Refill.ofRate rate).amount ∧ 999 * reported < 1000 * rate
  eq_iff : reported = rate ↔ (Refill.ofRate rate).amount ∣ rate ∧
    1000000000 / (rate / (Refill.ofRate rate).amount + 1) <
      1000000000 / (rate / (Refill.ofRate rate).amount)
  eq_of_le : rate ≤ 31622 → reported = rate
  fits : rate ≤ 18446744073709000000 → reported < UInt64.size

theorem Refill.reflects (h : 0 < rate) : Reflects (ofRate rate).rate rate where
  eq_mul := rate_ofRate h
  near := ⟨lt_rate_ofRate h, rate_ofRate_lt h⟩
  eq_iff := rate_ofRate_eq_iff h
  eq_of_le := rate_ofRate_of_le h
  fits := rate_ofRate_fits h

namespace RateLimiter

theorem rate?_of_refill {l : RateLimiter} (hrefill : l.bucket.refill = Refill.ofRate rate)
    (hfits : (Refill.ofRate rate).rate < UInt64.size) :
    l.rate? = .ok (Refill.ofRate rate).rate := by
  rw [rate?, hrefill, if_pos hfits]

variable {total threads : Nat}

/-- Limiters whose shares are reported exactly report the shares. -/
theorem mapM_rate? (h : 0 < threads) (htotal : total < UInt64.size)
    (hexact : ∀ i < threads,
      (Refill.ofRate (share total i threads)).rate = share total i threads) :
    ((shares total threads).map (fresh · 1)).mapM rate? = .ok (shares total threads) := by
  rw [mapM_eq_ok_iff_forall₂, List.forall₂_map_left_iff, List.forall₂_same]
  intro rate hrate
  obtain ⟨i, hi, rfl⟩ := List.mem_map.1 hrate
  have hrate := hexact i (List.mem_range.1 hi)
  have hshare : share total i threads < UInt64.size := (share_le_total h i).trans_lt htotal
  rw [rate?_of_refill rfl (hrate.symm ▸ hshare), hrate]

end RateLimiter

/-- Limiters report the rate they were given, as far as a refill can show it: a new one and one
whose rate is changed alike, unless it is changed to zero, which is refused and changes nothing. The
limiters of some threads report the total if each of them reports its share exactly. -/
theorem rates_reported [Machine] :
    (∀ rate, 0 < rate →
      Reflects (Refill.ofRate rate).rate rate ∧
      (∀ burst, ∃ l, RateLimiter.ofRate? rate burst = .ok l ∧
        ((Refill.ofRate rate).rate < UInt64.size → l.rate? = .ok (Refill.ofRate rate).rate)) ∧
      ∀ l : RateLimiter, ∃ b, (RateLimiter.changeRate rate).run l.bucket = (.ok (), b) ∧
        ((Refill.ofRate rate).rate < UInt64.size →
          (RateLimiter.mk b).rate? = .ok (Refill.ofRate rate).rate)) ∧
    (∀ l : RateLimiter, (RateLimiter.changeRate 0).run l.bucket = (.error .zeroRate, l.bucket)) ∧
    ∀ total threads, 0 < threads → threads ≤ total → total < UInt64.size →
      FitsMemory threads 8 →
      (∀ i < threads, (Refill.ofRate (share total i threads)).rate = share total i threads) →
      ∃ limiters rates, RateLimiter.forThreads? total threads = .ok limiters ∧
        limiters.mapM RateLimiter.rate? = .ok rates ∧ rates.sum = total := by
  refine ⟨fun rate h => ⟨Refill.reflects h, fun burst => ?_, fun l => ?_⟩,
    fun l => RateLimiter.run_changeRate_zero l.bucket,
    fun total threads h hle htotal hfits hexact => ?_⟩
  · exact ⟨_, RateLimiter.ofRate?_of_pos h burst, RateLimiter.rate?_of_refill rfl⟩
  · exact ⟨_, RateLimiter.run_changeRate h l.bucket, RateLimiter.rate?_of_refill rfl⟩
  · exact ⟨_, _, RateLimiter.forThreads?_eq h hle hfits,
      RateLimiter.mapM_rate? h htotal hexact, sum_shares total h⟩

section

attribute [local instance] Machine.largest

/-- Three million are reported exactly, by a limiter that was given a rate of one before, and so are
the shares of three threads that keep to a thousand operations per second together. -/
theorem rates_reported_millions :
    (0 < 3000000 ∧ (Refill.ofRate 3000000).rate = 3000000) ∧
      (∃ b, (RateLimiter.changeRate 3000000).run (RateLimiter.fresh 1 1).bucket = (.ok (), b) ∧
        (RateLimiter.mk b).rate? = .ok 3000000) ∧
      (0 < 3 ∧ 3 ≤ 1000 ∧ 1000 < UInt64.size ∧ FitsMemory 3 8) ∧
      ∃ limiters rates, RateLimiter.forThreads? 1000 3 = .ok limiters ∧
        limiters.mapM RateLimiter.rate? = .ok rates ∧ rates.sum = 1000 := by
  obtain ⟨hrates, -, hthreads⟩ := rates_reported
  have hpos : 0 < 3000000 := by decide
  have hrate : (Refill.ofRate 3000000).rate = 3000000 := by decide +kernel
  obtain ⟨-, -, hchanged⟩ := hrates 3000000 hpos
  obtain ⟨b, hrun, hreported⟩ := hchanged (RateLimiter.fresh 1 1)
  rw [hrate] at hreported
  have hthree : 0 < 3 ∧ 3 ≤ 1000 ∧ 1000 < UInt64.size ∧ FitsMemory 3 8 := by decide
  obtain ⟨h, hle, htotal, hfits⟩ := hthree
  refine ⟨⟨hpos, hrate⟩, ⟨b, hrun, hreported (by decide)⟩, ⟨h, hle, htotal, hfits⟩, ?_⟩
  refine hthreads 1000 3 h hle htotal hfits fun i _ => ?_
  have hshare : share 1000 i 3 ≤ 31622 := (share_le_total h i).trans (by decide)
  exact (hrates _ (share_pos h hle i)).1.eq_of_le hshare

/-- One operation less than a million is reported as a million, and two threads that keep to just
over a million together report 497 more. -/
theorem rate_reported_too_high :
    (∃ l, RateLimiter.ofRate? 999999 1 = .ok l ∧ l.rate? = .ok 1000000) ∧
      ∃ limiters, RateLimiter.forThreads? 1000003 2 = .ok limiters ∧
        limiters.mapM RateLimiter.rate? = .ok [500250, 500250] := by
  constructor
  · have hrate : (Refill.ofRate 999999).rate = 1000000 := by decide +kernel
    refine ⟨_, RateLimiter.ofRate?_of_pos (by decide) 1, ?_⟩
    rw [RateLimiter.rate?_of_refill rfl (by rw [hrate]; decide), hrate]
  · have hlarger : (Refill.ofRate 500002).rate = 500250 := by decide +kernel
    have hsmaller : (Refill.ofRate 500001).rate = 500250 := by decide +kernel
    have hsplit : shares 1000003 2 = [500002, 500001] := rfl
    refine ⟨_, RateLimiter.forThreads?_eq (by decide) (by decide) (by decide), ?_⟩
    rw [hsplit, mapM_eq_ok_iff_forall₂]
    refine .cons ?_ (.cons ?_ .nil)
    · rw [RateLimiter.rate?_of_refill rfl (by rw [hlarger]; decide), hlarger]
    · rw [RateLimiter.rate?_of_refill rfl (by rw [hsmaller]; decide), hsmaller]

end

end StoreBench
