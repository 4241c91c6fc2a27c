import StoreBench.Proofs.Refills
/-!
# Tokens between refills

Between two refills the tokens of a limiter change in two ways. A call may take one, and a change of
rate whose refill is larger than the capacity fills the bucket with as many. So what was taken and
what is left add up to what the limiter started with and what it was filled up with; and as long as
every refill fits the capacity no more is taken than that.
-/

namespace StoreBench

/-- What may be asked of a limiter without waiting for a refill. -/
inductive LimiterCall where
  | tryConsume
  | setRate (rate : Nat)

/-- The amount of the refill that a call asks for. -/
def LimiterCall.amount : LimiterCall → Nat
  | .tryConsume => 0
  | .setRate rate => (Refill.ofRate rate).amount

namespace RateLimiter

variable {rate burst : Nat} {l : RateLimiter} {call : LimiterCall} {calls : List LimiterCall}

/-- The tokens a call takes, and the limiter after it. -/
def serve (l : RateLimiter) : LimiterCall → Nat × RateLimiter
  | .tryConsume => (l.tryConsume.1.toNat, l.tryConsume.2)
  | .setRate rate => (0, ⟨((changeRate rate).run l.bucket).2⟩)

/-- The tokens that calls take one after the other, and the limiter after them. -/
def serveAll (l : RateLimiter) : List LimiterCall → Nat × RateLimiter
  | [] => (0, l)
  | call :: calls =>
    ((l.serve call).1 + ((l.serve call).2.serveAll calls).1, ((l.serve call).2.serveAll calls).2)

/-- The tokens with which a call fills the bucket up. -/
def filled (l : RateLimiter) (call : LimiterCall) : Nat :=
  if l.bucket.capacity < call.amount then call.amount - l.bucket.available else 0

def filledAll (l : RateLimiter) : List LimiterCall → Nat
  | [] => 0
  | call :: calls => l.filled call + (l.serve call).2.filledAll calls

/-- No more tokens than there is room for. -/
def Holds (l : RateLimiter) : Prop := l.bucket.available ≤ l.bucket.capacity

/-! ## One call -/

theorem amount_zero : (Refill.ofRate 0).amount = 0 := by decide +kernel

/-- A call takes a token, changes the rate or does nothing. -/
theorem serve_cases (l : RateLimiter) (call : LimiterCall) :
    (call = .tryConsume ∧ 0 < l.bucket.available ∧
      l.serve call = (1, ⟨{ l.bucket with available := l.bucket.available - 1 }⟩)) ∨
    (∃ rate, call = .setRate rate ∧ l.serve call = (0, ⟨retimed rate l.bucket⟩)) ∨
    (call.amount = 0 ∧ l.serve call = (0, l)) := by
  cases call with
  | tryConsume =>
    by_cases h : 0 < l.bucket.available
    · exact .inl ⟨rfl, h, by simp [serve, tryConsume, Bucket.take, h]⟩
    · exact .inr (.inr ⟨rfl, by simp [serve, tryConsume, Bucket.take, h]⟩)
  | setRate rate =>
    rcases Nat.eq_zero_or_pos rate with rfl | h
    · exact .inr (.inr ⟨amount_zero, rfl⟩)
    · exact .inr (.inl ⟨rate, rfl, by rw [serve, run_changeRate h]⟩)

theorem capacity_serve (l : RateLimiter) (call : LimiterCall) :
    (l.serve call).2.bucket.capacity = max l.bucket.capacity call.amount := by
  rcases serve_cases l call with ⟨rfl, -, hserve⟩ | ⟨rate, rfl, hserve⟩ | ⟨hamount, hserve⟩
  · rw [hserve, LimiterCall.amount, Nat.max_zero]
  · rw [hserve, LimiterCall.amount, retimed]
  · rw [hserve, hamount, Nat.max_zero]

theorem filled_of_le (h : call.amount ≤ l.bucket.capacity) : l.filled call = 0 :=
  if_neg (Nat.not_lt.2 h)

theorem filled_of_lt (h : l.bucket.capacity < call.amount) :
    l.filled call = call.amount - l.bucket.available := if_pos h

/-- What is taken and what is left are what there was and what the bucket is filled up with. -/
theorem taken_add_available (l : RateLimiter) (call : LimiterCall) :
    (l.serve call).1 + (l.serve call).2.bucket.available =
      l.bucket.available + l.filled call := by
  rcases serve_cases l call with ⟨rfl, hpos, hserve⟩ | ⟨rate, rfl, hserve⟩ | ⟨hamount, hserve⟩
  · rw [hserve, filled_of_le (Nat.zero_le _)]
    exact Nat.add_sub_cancel' hpos
  · rw [hserve, Nat.zero_add]
    rcases Nat.lt_or_ge l.bucket.capacity (LimiterCall.setRate rate).amount with hlt | hle
    · rw [available_retimed_of_lt hlt, filled_of_lt hlt, LimiterCall.amount]
      omega
    · rw [available_retimed_of_le hle, filled_of_le hle, Nat.add_zero]
  · rw [hserve, filled_of_le (hamount ▸ Nat.zero_le _), Nat.zero_add, Nat.add_zero]

theorem Holds.serve (h : l.Holds) (call : LimiterCall) : (l.serve call).2.Holds := by
  unfold Holds at h ⊢
  rw [capacity_serve]
  have htokens := taken_add_available l call
  rcases Nat.lt_or_ge l.bucket.capacity call.amount with hlt | hle
  · rw [filled_of_lt hlt] at htokens
    omega
  · rw [filled_of_le hle] at htokens
    omega

/-! ## Calls one after the other -/

theorem Holds.serveAll (h : l.Holds) (calls : List LimiterCall) : (l.serveAll calls).2.Holds := by
  induction calls generalizing l with
  | nil => exact h
  | cons call calls ih => exact ih (h.serve call)

theorem takenAll_add_available (l : RateLimiter) (calls : List LimiterCall) :
    (l.serveAll calls).1 + (l.serveAll calls).2.bucket.available =
      l.bucket.available + l.filledAll calls := by
  induction calls generalizing l with
  | nil => exact Nat.zero_add _
  | cons call calls ih =>
    have hcall := taken_add_available l call
    have hcalls := ih (l.serve call).2
    simp only [RateLimiter.serveAll, filledAll]
    omega

/-- Calls whose refills fit leave the capacity as it is and add no token. -/
theorem serveAll_of_fits (h : ∀ call ∈ calls, call.amount ≤ l.bucket.capacity) :
    l.filledAll calls = 0 ∧ (l.serveAll calls).2.bucket.capacity = l.bucket.capacity := by
  induction calls generalizing l with
  | nil => exact ⟨rfl, rfl⟩
  | cons call calls ih =>
    have hcall : call.amount ≤ l.bucket.capacity := h call List.mem_cons_self
    have hcapacity : (l.serve call).2.bucket.capacity = l.bucket.capacity :=
      (capacity_serve l call).trans (Nat.max_eq_left hcall)
    obtain ⟨hfilled, hsame⟩ := ih (l := (l.serve call).2) fun other hother =>
      hcapacity ▸ h other (List.mem_cons_of_mem _ hother)
    exact ⟨by rw [filledAll, filled_of_le hcall, hfilled], hsame.trans hcapacity⟩

theorem taken_le_of_fits (hl : l.Holds) (h : ∀ call ∈ calls, call.amount ≤ l.bucket.capacity) :
    (l.serveAll calls).1 ≤ l.bucket.capacity := by
  have htotal := takenAll_add_available l calls
  rw [(serveAll_of_fits h).1] at htotal
  exact (Nat.le_add_right _ _).trans (htotal.trans_le hl)

theorem forall_amount_le {bound : Nat}
    (h : ∀ rate, .setRate rate ∈ calls → (Refill.ofRate rate).amount ≤ bound) :
    ∀ call ∈ calls, call.amount ≤ bound := by
  intro call hcall
  cases call with
  | tryConsume => exact Nat.zero_le bound
  | setRate rate => exact h rate hcall

/-! ## From a full bucket on -/

/-- A change of rate keeps the tokens exactly if the refill fits. -/
theorem available_retimed_eq_iff (h : l.Holds) :
    (retimed rate l.bucket).available = l.bucket.available ↔
      (Refill.ofRate rate).amount ≤ l.bucket.capacity := by
  refine ⟨fun heq => Nat.not_lt.1 fun hlt => ?_, available_retimed_of_le⟩
  rw [available_retimed_of_lt hlt] at heq
  unfold Holds at h
  omega

theorem retimed_of_lt (h : l.Holds) (hlt : l.bucket.capacity < (Refill.ofRate rate).amount) :
    (retimed rate l.bucket).available = (Refill.ofRate rate).amount ∧
      (retimed rate l.bucket).capacity = (Refill.ofRate rate).amount :=
  ⟨(available_retimed_of_lt hlt).trans (Nat.max_eq_right (h.trans hlt.le)),
    Nat.max_eq_right hlt.le⟩

theorem of_ofRate? (h : ofRate? rate burst = .ok l) : 0 < rate ∧ l = fresh rate burst := by
  rcases Nat.eq_zero_or_pos rate with rfl | hpos
  · cases h
  · rw [ofRate?_of_pos hpos] at h
    cases h
    exact ⟨hpos, rfl⟩

theorem amount_le_one (h : rate ≤ 1000000) : (Refill.ofRate rate).amount ≤ 1 := by
  rcases Nat.eq_zero_or_pos rate with rfl | hpos
  · exact amount_zero.trans_le (Nat.zero_le 1)
  · exact (Refill.amount_eq_one hpos h).le

/-- The tokens of a limiter are accounted for. It starts with a full bucket; what was taken and what
is left are those tokens and the ones that changes of rate filled it up with. A change of rate
leaves the tokens as they are exactly if the refill fits the capacity, and fills the bucket
otherwise. So if the refill of each rate fits the first capacity, as for rates up to a million it
does, no more tokens are taken than that. -/
theorem tokens_accounted (h : ofRate? rate burst = .ok l) (calls : List LimiterCall) :
    let after := (l.serveAll calls).2.bucket
    (l.serveAll calls).1 + after.available = l.bucket.capacity + l.filledAll calls ∧
    (∀ rate', let changed := ((changeRate rate').run after).2
      (changed.available = after.available ↔ (Refill.ofRate rate').amount ≤ after.capacity) ∧
      (after.capacity < (Refill.ofRate rate').amount →
        changed.available = (Refill.ofRate rate').amount ∧
          changed.capacity = (Refill.ofRate rate').amount)) ∧
    ((∀ rate', .setRate rate' ∈ calls → (Refill.ofRate rate').amount ≤ l.bucket.capacity) →
      l.filledAll calls = 0 ∧ after.capacity = l.bucket.capacity ∧
        (l.serveAll calls).1 ≤ l.bucket.capacity) ∧
    ((∀ rate', .setRate rate' ∈ calls → rate' ≤ 1000000) →
      (l.serveAll calls).1 ≤ l.bucket.capacity) := by
  obtain ⟨hpos, rfl⟩ := of_ofRate? h
  have hfresh : (fresh rate burst).Holds := Nat.le_refl _
  have hafter : ((fresh rate burst).serveAll calls).2.Holds := hfresh.serveAll calls
  have htotal := takenAll_add_available (fresh rate burst) calls
  refine ⟨htotal, fun rate' => ?_, fun hfits => ?_, fun hsmall => ?_⟩
  · rcases Nat.eq_zero_or_pos rate' with rfl | hpos'
    · rw [run_changeRate_zero, amount_zero]
      exact ⟨iff_of_true rfl (Nat.zero_le _), fun hlt => absurd hlt (Nat.not_lt_zero _)⟩
    · rw [run_changeRate hpos']
      exact ⟨available_retimed_eq_iff hafter, retimed_of_lt hafter⟩
  · have hcalls := forall_amount_le hfits
    obtain ⟨hfilled, hcapacity⟩ := serveAll_of_fits hcalls
    exact ⟨hfilled, hcapacity, taken_le_of_fits hfresh hcalls⟩
  · have hroom : 1 ≤ (fresh rate burst).bucket.capacity :=
      (Refill.amount_pos hpos).trans_le (Nat.le_max_right _ _)
    exact taken_le_of_fits hfresh
      (forall_amount_le fun rate' hcall => (amount_le_one (hsmall rate' hcall)).trans hroom)

/-- A limiter with a burst of three, which is enough for the refills of three million. -/
theorem tokens_accounted_three :
    let calls := [.tryConsume, .setRate 3000000, .tryConsume, .tryConsume, .tryConsume]
    ∃ l, ofRate? 10 3 = .ok l ∧ l.bucket.capacity = 3 ∧
      (∀ rate', .setRate rate' ∈ calls → (Refill.ofRate rate').amount ≤ l.bucket.capacity) ∧
      l.filledAll calls = 0 ∧ (l.serveAll calls).1 = 3 ∧
      (l.serveAll calls).1 ≤ l.bucket.capacity := by
  intro calls
  have hok : ofRate? 10 3 = .ok (fresh 10 3) := ofRate?_of_pos (by decide) 3
  have hcapacity : (fresh 10 3).bucket.capacity = 3 := by decide +kernel
  have hfits : ∀ rate', .setRate rate' ∈ calls →
      (Refill.ofRate rate').amount ≤ (fresh 10 3).bucket.capacity := by
    intro rate' hcall
    obtain rfl : rate' = 3000000 := by simpa [calls] using hcall
    decide +kernel
  obtain ⟨-, -, hbound, -⟩ := tokens_accounted hok calls
  obtain ⟨hfilled, -, htaken⟩ := hbound hfits
  exact ⟨_, hok, hcapacity, hfits, hfilled, by decide +kernel, htaken⟩

/-- A limiter with a burst of one gives three operations away at once, two of them because its rate
was changed to two million between them. -/
theorem rate_change_adds_tokens :
    ∃ l, ofRate? 1 1 = .ok l ∧ l.bucket.capacity = 1 ∧
      (l.serveAll [.tryConsume]).2.bucket.available = 0 ∧
      (l.serveAll [.tryConsume, .setRate 2000000]).2.bucket.available = 2 ∧
      (l.serveAll [.tryConsume, .setRate 2000000, .tryConsume, .tryConsume]).1 = 3 :=
  ⟨fresh 1 1, ofRate?_of_pos (by decide) 1, by decide +kernel, by decide +kernel,
    by decide +kernel, by decide +kernel⟩

end RateLimiter

end StoreBench
