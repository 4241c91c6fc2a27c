import Mathlib.Data.Rat.Floor
import Mathlib.Tactic.Linarith
import Mathlib.Tactic.NormNum
import StoreBench.Pacing.RateLimiter
import StoreBench.Proofs.Rounding
/-!
# Refills

A positive rate asks for a number of refills per second, of as many tokens each as the rate has
millions. What double precision adds to the millions or takes from them is too little to matter:
there are at most a million refills per second, and at least one. An interval is cut down to whole
nanoseconds, of which it has a thousand or more, so what is sustained is less than a thousandth too
much. A limiter never meets a refusal of its bucket.
-/

namespace StoreBench

open Numeric

variable {rate : Nat}

namespace Refill

/-- The millions in a rate, in double precision. -/
def millions (rate : Nat) : Rat := roundToDouble (roundToDouble rate / 1000000)

/-- The refills per second that a rate asks for. -/
def frequency (rate : Nat) : Nat := rate / (ofRate rate).amount

theorem amount_ofRate (rate : Nat) : (ofRate rate).amount = (millions rate).ceil.toNat := rfl

theorem interval_ofRate (rate : Nat) : (ofRate rate).interval = 1000000000 / frequency rate := rfl

/-! ## The amount -/

theorem millions_near (h : 0 < rate) :
    |millions rate - rate / 1000000| ≤ (rate : Rat) / 1000000000000000 := by
  have hrate : (0 : Rat) < rate := Nat.cast_pos.2 h
  have hnear := abs_le.1 (roundToDouble_near hrate)
  have hquotient : 0 < roundToDouble (rate : Rat) / 1000000 :=
    div_pos (roundToDouble_pos hrate) (by norm_num)
  have hnear' := abs_le.1 (roundToDouble_near hquotient)
  rw [millions, abs_le]
  constructor <;> linarith [hnear.1, hnear.2, hnear'.1, hnear'.2]

theorem millions_pos (h : 0 < rate) : 0 < millions rate :=
  roundToDouble_pos (div_pos (roundToDouble_pos (Nat.cast_pos.2 h)) (by norm_num))

theorem amount_mem (h : 0 < rate) :
    millions rate ≤ (ofRate rate).amount ∧ ((ofRate rate).amount : Rat) < millions rate + 1 := by
  have hceil : (0 : Rat) ≤ (millions rate).ceil := (millions_pos h).le.trans Rat.le_ceil
  have hamount : ((ofRate rate).amount : Rat) = (millions rate).ceil := by
    rw [amount_ofRate]
    exact_mod_cast Int.toNat_of_nonneg (Int.cast_nonneg_iff.1 hceil)
  rw [hamount]
  exact ⟨Rat.le_ceil, Rat.ceil_lt⟩

theorem amount_pos (h : 0 < rate) : 0 < (ofRate rate).amount := by
  have hpos : (0 : Rat) < (ofRate rate).amount := (millions_pos h).trans_le (amount_mem h).1
  exact Nat.cast_pos.1 hpos

theorem amount_le (h : 0 < rate) : (ofRate rate).amount ≤ rate := by
  have hrate : (0 : Rat) < rate := Nat.cast_pos.2 h
  have hnear := (abs_le.1 (millions_near h)).2
  have hlt : ((ofRate rate).amount : Rat) < rate + 1 := by linarith [(amount_mem h).2]
  exact Nat.le_of_lt_succ (by exact_mod_cast hlt)

theorem millions_mono {rate rate' : Nat} (h : rate ≤ rate') : millions rate ≤ millions rate' := by
  have hle : (rate : Rat) ≤ rate' := by exact_mod_cast h
  exact roundToDouble_mono (div_le_div_of_nonneg_right (roundToDouble_mono hle) (by norm_num))

theorem amount_eq_one (h : 0 < rate) (hle : rate ≤ 1000000) : (ofRate rate).amount = 1 := by
  have hmillion : millions 1000000 ≤ 1 := by decide +kernel
  have hmillions := (millions_mono hle).trans hmillion
  have hlt : ((ofRate rate).amount : Rat) < 2 := by linarith [(amount_mem h).2]
  have hpos := amount_pos h
  have : (ofRate rate).amount < 2 := by exact_mod_cast hlt
  omega

/-! ## The interval -/

theorem frequency_pos (h : 0 < rate) : 0 < frequency rate :=
  Nat.div_pos (amount_le h) (amount_pos h)

/-- Rounding cannot push the refills beyond a million, as one more would be a millionth more. -/
theorem frequency_le (h : 0 < rate) : frequency rate ≤ 1000000 := by
  have hamount : (0 : Rat) < (ofRate rate).amount := Nat.cast_pos.2 (amount_pos h)
  have hnear := (abs_le.1 (millions_near h)).1
  have hlt : (rate : Rat) < (ofRate rate).amount * 1000001 := by linarith [(amount_mem h).1]
  have hlt' : rate < 1000001 * (ofRate rate).amount := by
    rw [Nat.mul_comm]
    exact_mod_cast hlt
  exact Nat.le_of_lt_succ (Nat.div_lt_of_lt_mul (Nat.mul_comm _ _ ▸ hlt'))

theorem interval_mem (h : 0 < rate) :
    1000 ≤ (ofRate rate).interval ∧ (ofRate rate).interval ≤ 1000000000 := by
  rw [interval_ofRate]
  constructor
  · rw [Nat.le_div_iff_mul_le (frequency_pos h)]
    have := frequency_le h
    omega
  · exact Nat.div_le_self _ _

theorem interval_pos (h : 0 < rate) : 0 < (ofRate rate).interval :=
  Nat.lt_of_lt_of_le (by decide) (interval_mem h).1

/-! ## What is sustained -/

/-- The operations per second that a refill sustains. -/
def sustained (r : Refill) : Rat := r.amount * 1000000000 / r.interval

/-- Whole refills of a rate fall short of it by less than one refill. -/
theorem frequency_mul_amount (h : 0 < rate) :
    frequency rate * (ofRate rate).amount ≤ rate ∧
      rate < frequency rate * (ofRate rate).amount + (ofRate rate).amount := by
  refine ⟨Nat.div_mul_le_self _ _, ?_⟩
  rw [← Nat.succ_mul, Nat.mul_comm]
  exact Nat.lt_mul_div_succ rate (amount_pos h)

/-- The intervals of a second fall short of it by less than one interval. -/
theorem frequency_mul_interval (h : 0 < rate) :
    frequency rate * (ofRate rate).interval ≤ 1000000000 ∧
      1000000000 < frequency rate * (ofRate rate).interval + frequency rate := by
  rw [interval_ofRate]
  refine ⟨Nat.mul_div_le _ _, ?_⟩
  rw [← Nat.mul_succ]
  exact Nat.lt_mul_div_succ _ (frequency_pos h)

theorem lt_sustained (h : 0 < rate) :
    (rate : Rat) - (ofRate rate).amount < (ofRate rate).sustained := by
  have hinterval : (0 : Rat) < (ofRate rate).interval := Nat.cast_pos.2 (interval_pos h)
  have hamount : (rate : Rat) < frequency rate * (ofRate rate).amount + (ofRate rate).amount := by
    exact_mod_cast (frequency_mul_amount h).2
  have hsecond : (frequency rate : Rat) * (ofRate rate).interval ≤ 1000000000 := by
    exact_mod_cast (frequency_mul_interval h).1
  rw [sustained, lt_div_iff₀ hinterval]
  calc ((rate : Rat) - (ofRate rate).amount) * (ofRate rate).interval
      < frequency rate * (ofRate rate).amount * (ofRate rate).interval :=
        mul_lt_mul_of_pos_right (by linarith) hinterval
    _ = (ofRate rate).amount * (frequency rate * (ofRate rate).interval) := by ring
    _ ≤ (ofRate rate).amount * 1000000000 :=
        mul_le_mul_of_nonneg_left hsecond (Nat.cast_nonneg _)

/-- An interval that is cut down is one of a thousand nanoseconds or more. -/
theorem sustained_lt (h : 0 < rate) : (ofRate rate).sustained < (rate : Rat) * 1000 / 999 := by
  have hthousand : (1000 : Rat) ≤ (ofRate rate).interval := by
    exact_mod_cast (interval_mem h).1
  have hinterval : (0 : Rat) < (ofRate rate).interval := Nat.cast_pos.2 (interval_pos h)
  have hamount : (frequency rate : Rat) * (ofRate rate).amount ≤ rate := by
    exact_mod_cast (frequency_mul_amount h).1
  have hsecond : (1000000000 : Rat) <
      frequency rate * (ofRate rate).interval + frequency rate := by
    exact_mod_cast (frequency_mul_interval h).2
  have hpos : (0 : Rat) < (ofRate rate).amount := Nat.cast_pos.2 (amount_pos h)
  rw [sustained, div_lt_iff₀ hinterval]
  calc ((ofRate rate).amount : Rat) * 1000000000
      < (ofRate rate).amount * (frequency rate * (ofRate rate).interval + frequency rate) :=
        mul_lt_mul_of_pos_left hsecond hpos
    _ = frequency rate * (ofRate rate).amount * ((ofRate rate).interval + 1) := by ring
    _ ≤ rate * ((ofRate rate).interval + 1) := mul_le_mul_of_nonneg_right hamount (by linarith)
    _ ≤ rate * (1000 / 999 * (ofRate rate).interval) :=
        mul_le_mul_of_nonneg_left (by linarith) (Nat.cast_nonneg _)
    _ = rate * 1000 / 999 * (ofRate rate).interval := by ring

end Refill

/-! ## Settings -/

namespace RateLimiter

theorem interval_fits (h : 0 < rate) : (Refill.ofRate rate).interval < UInt64.size :=
  Nat.lt_of_le_of_lt (Refill.interval_mem h).2 (by decide)

/-- A limiter around a full bucket. -/
def fresh (rate burst : Nat) : RateLimiter where
  bucket :=
    { refill := Refill.ofRate rate
      capacity := max burst (Refill.ofRate rate).amount
      available := max burst (Refill.ofRate rate).amount
      amount_le := Nat.le_max_right _ _ }

/-- A limiter is built whatever its burst. -/
theorem ofRate?_of_pos (h : 0 < rate) (burst : Nat) :
    ofRate? rate burst = .ok (fresh rate burst) := by
  simp only [ofRate?, if_neg (Nat.ne_of_gt h), Bucket.build?, dif_pos (Nat.le_max_right _ _),
    if_pos (interval_fits h)]
  rfl

theorem run_changeRate_zero (b : Bucket) : (changeRate 0).run b = (.error .zeroRate, b) := rfl

section Adjusting

variable {set? : Bucket → Except BucketRefusal Bucket} {b b' : Bucket}

theorem run_adjust (h : set? b = .ok b') : (adjust set?).run b = (.ok (), b') := by
  change (MonadExcept.ofExcept ((set? b).mapError .bucket) >>= set : BucketM Unit).run b = _
  rw [h]
  rfl

theorem run_adjust_bind (h : set? b = .ok b') (next : BucketM Unit) :
    (adjust set? >>= fun _ => next).run b = next.run b' := by
  change ((MonadExcept.ofExcept ((set? b).mapError .bucket) >>= set : BucketM Unit) >>=
    fun _ => next).run b = _
  rw [h]
  rfl

end Adjusting

/-- The bucket after a change of rate: it has room for a refill, and is full if it had none. -/
def retimed (rate : Nat) (b : Bucket) : Bucket where
  refill := Refill.ofRate rate
  capacity := max b.capacity (Refill.ofRate rate).amount
  available :=
    if b.capacity < (Refill.ofRate rate).amount then max b.available (Refill.ofRate rate).amount
    else b.available
  amount_le := Nat.le_max_right _ _

theorem available_retimed_of_le {b : Bucket} (h : (Refill.ofRate rate).amount ≤ b.capacity) :
    (retimed rate b).available = b.available := if_neg (Nat.not_lt.2 h)

theorem available_retimed_of_lt {b : Bucket} (h : b.capacity < (Refill.ofRate rate).amount) :
    (retimed rate b).available = max b.available (Refill.ofRate rate).amount := if_pos h

theorem run_settings (h : 0 < rate) {b : Bucket}
    (hroom : (Refill.ofRate rate).amount ≤ b.capacity) :
    (do
      adjust (·.setInterval? (Refill.ofRate rate).interval)
      adjust (·.setAmount? (Refill.ofRate rate).amount) : BucketM Unit).run b =
      (.ok (), ⟨Refill.ofRate rate, b.capacity, b.available, hroom⟩) := by
  rw [run_adjust_bind (if_pos (interval_fits h)), run_adjust (dif_pos hroom)]

/-- No setting is refused: the room is made before the amount needs it. -/
theorem run_changeRate (h : 0 < rate) (b : Bucket) :
    (changeRate rate).run b = (.ok (), retimed rate b) := by
  simp only [changeRate, if_neg (Nat.ne_of_gt h)]
  change (if b.capacity < (Refill.ofRate rate).amount then _ else _ : BucketM Unit).run b = _
  by_cases hroom : b.capacity < (Refill.ofRate rate).amount
  · have hle : b.refill.amount ≤ (Refill.ofRate rate).amount := b.amount_le.trans hroom.le
    rw [if_pos hroom, run_adjust_bind (dif_pos hle), run_settings h le_rfl]
    simp [retimed, hroom, hroom.le]
  · rw [if_neg hroom, run_settings h (not_lt.1 hroom)]
    simp [retimed, hroom, not_lt.1 hroom]

end RateLimiter

/-! ## Pacing -/

/-- Refills are valid and pace closely. Nothing is divided by zero, a refill adds some tokens but no
more than the rate has operations, its interval is between a microsecond and a second, and what it
sustains is less than a refill below the rate and less than a thousandth above. A bucket is given
room for it both at the start and when the rate changes. -/
theorem refills_pace_closely (h : 0 < rate) :
    let refill := Refill.ofRate rate
    (0 < refill.amount ∧ refill.amount ≤ rate ∧ 0 < rate / refill.amount) ∧
      (1000 ≤ refill.interval ∧ refill.interval ≤ 1000000000) ∧
      ((rate : Rat) - refill.amount < refill.sustained ∧
        refill.sustained < (rate : Rat) * 1000 / 999) ∧
      (∀ burst, ∃ l, RateLimiter.ofRate? rate burst = .ok l ∧ l.bucket.refill = refill ∧
        l.bucket.capacity = max burst refill.amount) ∧
      ∀ b : Bucket, ∃ b', (RateLimiter.changeRate rate).run b = (.ok (), b') ∧
        b'.refill = refill ∧ b'.capacity = max b.capacity refill.amount := by
  intro refill
  exact ⟨⟨Refill.amount_pos h, Refill.amount_le h, Refill.frequency_pos h⟩,
    Refill.interval_mem h, ⟨Refill.lt_sustained h, Refill.sustained_lt h⟩,
    fun burst => ⟨_, RateLimiter.ofRate?_of_pos h burst, rfl, rfl⟩,
    fun b => ⟨_, RateLimiter.run_changeRate h b, rfl, rfl⟩⟩

/-- The refills of a rate just above two millions: three tokens every 1499 nanoseconds, in a bucket
built for one. -/
theorem refills_pace_closely_two_millions :
    0 < 2000001 ∧ Refill.ofRate 2000001 = ⟨3, 1499⟩ ∧
      (2000001 - 3 < (Refill.mk 3 1499).sustained ∧
        (Refill.mk 3 1499).sustained < 2000001 * 1000 / 999) ∧
      ∃ l, RateLimiter.ofRate? 2000001 1 = .ok l ∧ l.bucket.capacity = 3 := by
  have hpos : 0 < 2000001 := by decide
  have hrefill : Refill.ofRate 2000001 = ⟨3, 1499⟩ := by decide +kernel
  obtain ⟨-, -, hsustained, hbuilt, -⟩ := refills_pace_closely hpos
  obtain ⟨l, hl, -, hcapacity⟩ := hbuilt 1
  rw [hrefill] at hsustained hcapacity
  exact ⟨hpos, hrefill, by exact_mod_cast hsustained, l, hl, hcapacity⟩

end StoreBench
