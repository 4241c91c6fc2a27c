import Mathlib.Data.List.Nodup
import Mathlib.Data.List.Perm.Subperm
import StoreBench.Proofs.Steps
/-!
# Issuing record numbers

Any number of callers perform tasks and go on after loaded records, each as it likes and all of them
interleaved step by step. The numbers their inserts take ascend until the last machine word was
taken, and without a gap as long as nobody goes on after loaded records. Every insert uses the key
of a number of its own.
-/

namespace StoreBench

variable {n : Nat} {κ α : Type}

/-! ## What the members of a crew hold -/

/-- What the members hold, given what each of them knows. -/
def held (hold : κ → Option α) (known : Fin n → κ) : List α :=
  (List.finRange n).filterMap fun i => hold (known i)

/-- What the members hold is what one of them holds and the rest, whatever that one holds. -/
theorem exists_held_perm (hold : κ → Option α) (known : Fin n → κ) (i : Fin n) :
    ∃ rest, (held hold known).Perm ((hold (known i)).toList ++ rest) ∧
      ∀ k, (held hold (Function.update known i k)).Perm ((hold k).toList ++ rest) := by
  suffices hupdate : ∃ rest, ∀ k,
      (held hold (Function.update known i k)).Perm ((hold k).toList ++ rest) by
    obtain ⟨rest, hrest⟩ := hupdate
    refine ⟨rest, ?_, hrest⟩
    simpa using hrest (known i)
  refine ⟨((List.finRange n).erase i).filterMap fun j => hold (known j), fun k => ?_⟩
  have hperm := (List.perm_cons_erase (List.mem_finRange i)).filterMap
    (fun j => hold (Function.update known i k j))
  refine hperm.trans ?_
  have hrest : ((List.finRange n).erase i).filterMap (fun j => hold (Function.update known i k j)) =
      ((List.finRange n).erase i).filterMap fun j => hold (known j) := by
    refine List.filterMap_congr fun j hj => ?_
    have hne : j ≠ i := ((List.nodup_finRange n).mem_erase_iff.1 hj).1
    rw [Function.update_of_ne hne]
  rw [List.filterMap_cons, Function.update_self, hrest]
  cases hold k <;> rfl

/-! ## What was served -/

namespace Served

/-- The number that was taken. -/
def taken? : Served stepCalls n → Option UInt64
  | ⟨_, .workload .takeNumber, number⟩ => some number
  | _ => none

/-- The key that was inserted under. -/
def issued? : Served stepCalls n → Option Bytes
  | ⟨_, .workload (.perform (.insert key _)), _⟩ => some key
  | _ => none

end Served

/-- The numbers taken, in order. -/
def taken (log : List (Served stepCalls n)) : List UInt64 := log.filterMap Served.taken?

/-- The keys inserted under, in order. -/
def issued (log : List (Served stepCalls n)) : List Bytes := log.filterMap Served.issued?

/-- Somebody has gone on after loaded records. -/
def Assumed (log : List (Served stepCalls n)) : Prop := ∃ x ∈ log, x.request = .assumeLoaded

theorem taken_append (log : List (Served stepCalls n)) (x : Served stepCalls n) :
    taken (log ++ [x]) = taken log ++ x.taken?.toList := by
  rw [taken, taken, List.filterMap_append]
  cases hx : x.taken? <;> simp [hx]

theorem issued_append (log : List (Served stepCalls n)) (x : Served stepCalls n) :
    issued (log ++ [x]) = issued log ++ x.issued?.toList := by
  rw [issued, issued, List.filterMap_append]
  cases hx : x.issued? <;> simp [hx]

theorem Assumed.append {log : List (Served stepCalls n)} (h : Assumed log)
    (x : Served stepCalls n) : Assumed (log ++ [x]) := by
  obtain ⟨y, hy, hassumes⟩ := h
  exact ⟨y, List.mem_append_left _ hy, hassumes⟩

/-! ## Taking numbers -/

/-- The key of a machine word. -/
def keyOf (number : UInt64) : Bytes := recordKey number.toNat

theorem keyOf_injective : Function.Injective keyOf :=
  fun _ _ h => UInt64.toNat_inj.1 (recordKey_injective h)

/-- What is known of the numbers taken, and the one that is next, since the one that was next was
`start`, if somebody has gone on after `count` records or nobody has. -/
structure Numbered (count : Nat) (start : UInt64) (taken : List UInt64) (assumed : Prop)
    (next : UInt64) : Prop where
  ascending : (∀ number ∈ taken.dropLast, number.toNat + 1 < UInt64.size) → taken.Pairwise (· < ·)
  below : (∀ number ∈ taken, number.toNat + 1 < UInt64.size) → ∀ number ∈ taken, number < next
  consecutive : ¬ assumed → next = start + UInt64.ofNat taken.length ∧
    taken = (List.range taken.length).map fun j => start + UInt64.ofNat j
  first : UInt64.ofNat count ≤ start → (taken ++ [next]).head? = some start

namespace Numbered

variable {count : Nat} {start next : UInt64} {taken : List UInt64} {assumed : Prop}

theorem start_nil : Numbered count start [] assumed start where
  ascending _ := List.Pairwise.nil
  below _ := nofun
  consecutive _ := ⟨by simp, rfl⟩
  first _ := rfl

/-- Taking the next number. -/
theorem take (h : Numbered count start taken assumed next) :
    Numbered count start (taken ++ [next]) assumed (next + 1) where
  ascending hsmall := by
    rw [List.dropLast_concat] at hsmall
    refine List.pairwise_append.2 ⟨h.ascending fun number hnumber =>
      hsmall number (List.dropLast_subset _ hnumber), List.pairwise_singleton _ _, ?_⟩
    intro number hnumber last hlast
    rw [List.mem_singleton.1 hlast]
    exact h.below hsmall number hnumber
  below hsmall := by
    have hnext : next.toNat + 1 < UInt64.size := hsmall next (by simp)
    have hlt : next < next + 1 := by
      rw [UInt64.lt_iff_toNat_lt]
      exact (Numbering.toNat_next_take (n := ⟨next⟩) hnext).symm ▸ Nat.lt_succ_self _
    intro number hnumber
    rcases List.mem_append.1 hnumber with hbefore | hlast
    · have hbelow := h.below (fun x hx => hsmall x (List.mem_append_left _ hx)) number hbefore
      exact UInt64.lt_trans hbelow hlt
    · rw [List.mem_singleton.1 hlast]
      exact hlt
  consecutive hnone := by
    obtain ⟨hnext, htaken⟩ := h.consecutive hnone
    have hlength : UInt64.ofNat (taken ++ [next]).length = UInt64.ofNat taken.length + 1 := by
      rw [List.length_append, List.length_singleton, UInt64.ofNat_add]
      rfl
    refine ⟨by rw [hlength, hnext, UInt64.add_assoc], ?_⟩
    rw [List.length_append, List.length_singleton, List.range_succ, List.map_append, ← htaken]
    rw [List.map_singleton, ← hnext]
  first hstart := by
    rw [List.head?_append, h.first hstart]
    rfl

/-- Going on after loaded records. -/
theorem assume (h : Numbered count start taken assumed next) :
    Numbered count start taken True (Numbering.assumeLoaded ⟨next⟩ count).next where
  ascending := h.ascending
  below hsmall number hnumber :=
    UInt64.lt_of_lt_of_le (h.below hsmall number hnumber)
      (Numbering.next_le_assumeLoaded ⟨next⟩ count)
  consecutive hnone := absurd trivial hnone
  first hstart := by
    have hfirst := h.first hstart
    cases taken with
    | nil =>
      obtain rfl : next = start := Option.some.inj hfirst
      rw [Numbering.assumeLoaded_of_le hstart]
      rfl
    | cons number taken => exact hfirst

theorem mono {assumed' : Prop} (h : Numbered count start taken assumed next)
    (himp : assumed → assumed') : Numbered count start taken assumed' next where
  ascending := h.ascending
  below := h.below
  consecutive hnone := h.consecutive fun hassumed => hnone (himp hassumed)
  first := h.first

end Numbered

/-! ## Callers -/

/-- A caller inserts under the key of the number it took last, which is used up by that. -/
def issuing : Protocol stepCalls (Option UInt64) where
  allows
    | number, .workload (.perform op) => op.kind = .insert → ∃ taken row, number = some taken ∧
        op = .insert (keyOf taken) row
    | _, .client (.perform _ _) => False
    | _, _ => True
  expects _ _ _ := True
  next
    | _, .workload .takeNumber, taken => some taken
    | _, .workload (.perform (.insert _ _)), _ => none
    | number, _, _ => number

namespace Workload

variable {w : Workload}

theorem follows_steps_issuing [Machine] (task : Task) (worker : Worker) (number : Option UInt64) :
    (w.steps task worker).Follows issuing (fun _ _ => True) number := by
  refine (follows_steps (R := fun stage number => ∀ taken, stage = .planning (some taken) →
    number = some taken) ?_ ?_ nofun worker).imp fun _ _ _ => trivial
  · rintro number -
    refine ⟨trivial, fun taken _ => ?_⟩
    rintro _ ⟨⟩
    rfl
  · intro held number op hheld hchosen hop
    refine ⟨fun hinsert => ?_, fun _ _ => nofun⟩
    cases op with
    | insert key row =>
      obtain ⟨⟨taken, rfl, rfl⟩, -⟩ := hop
      exact ⟨taken, row, hheld taken rfl, rfl⟩
    | _ => cases hinsert

end Workload

theorem Caller.follows_issuing [Machine] {w : Workload} (p : Program callerCalls α)
    (number : Option UInt64) :
    (steps w p).Follows issuing (fun _ _ => True) number := by
  induction p generalizing number with
  | done a => trivial
  | note event rest ih => exact ih number
  | ask call rest ih =>
    have hcall : (CallerCall.steps w call).Follows issuing (fun _ _ => True) number := by
      cases call with
      | assumeLoaded => exact ⟨trivial, fun _ _ => trivial⟩
      | client call =>
        cases call with
        | perform task worker => exact Workload.follows_steps_issuing task worker number
        | _ => exact ⟨trivial, fun _ _ => trivial⟩
    exact Program.follows_bind.2 (hcall.imp fun number answer _ => ih answer number)

/-- The invariant of the callers: the keys they inserted under, with those of the numbers they hold,
are keys of different numbers taken. -/
structure Issues (count : Nat) (start : UInt64) (known : Fin n → Option UInt64)
    (log : List (Served stepCalls n)) (next : UInt64) : Prop where
  numbered : Numbered count start (taken log) (Assumed log) next
  keys : (issued log ++ held (Option.map keyOf) known).Subperm ((taken log).map keyOf)

namespace Issues

variable {count : Nat} {start next : UInt64} {known : Fin n → Option UInt64}
  {log : List (Served stepCalls n)} (h : Issues count start known log next) (i : Fin n)

include h

omit i in
/-- Whatever takes no number and inserts nothing. -/
theorem other {x : Served stepCalls n} (htaken : x.taken? = none) (hissued : x.issued? = none) :
    Issues count start known (log ++ [x]) next := by
  have htaken' : taken (log ++ [x]) = taken log := by simp [taken_append, htaken]
  have hissued' : issued (log ++ [x]) = issued log := by simp [issued_append, hissued]
  refine ⟨?_, by rw [htaken', hissued']; exact h.keys⟩
  rw [htaken']
  exact h.numbered.mono fun hassumed => hassumed.append x

theorem assume :
    Issues count start known (log ++ [⟨i, .assumeLoaded, ()⟩])
      (Numbering.assumeLoaded ⟨next⟩ count).next := by
  have hsame := h.other (x := ⟨i, .assumeLoaded, ()⟩) rfl rfl
  refine ⟨hsame.numbered.assume.mono fun _ => ?_, hsame.keys⟩
  exact ⟨_, List.mem_append_right _ (List.mem_singleton_self _), rfl⟩

/-- The number taken is held from then on, and the one held before is let go. -/
theorem take :
    Issues count start (Function.update known i (some next))
      (log ++ [⟨i, .workload .takeNumber, next⟩]) (next + 1) := by
  obtain ⟨others, hknown, hothers⟩ := exists_held_perm (Option.map keyOf) known i
  refine ⟨?_, ?_⟩
  · rw [taken_append]
    exact h.numbered.take.mono fun hassumed => hassumed.append _
  · have hrest : (issued log ++ others).Subperm ((taken log).map keyOf) := by
      refine List.Subperm.trans ?_ h.keys
      refine (List.Sublist.subperm ?_).trans (hknown.symm.append_left (issued log)).subperm
      exact (List.sublist_append_right _ others).append_left _
    rw [taken_append, issued_append, List.map_append]
    have hheld : (issued log ++ [] ++ held (Option.map keyOf)
        (Function.update known i (some next))).Perm (keyOf next :: (issued log ++ others)) := by
      rw [List.append_nil]
      exact ((hothers (some next)).append_left _).trans List.perm_middle
    refine hheld.subperm.trans (((List.subperm_cons _).2 hrest).trans ?_)
    exact (List.perm_append_singleton _ _).symm.subperm

/-- The number held is used up. -/
theorem insert {number : UInt64} (hheld : known i = some number) (row : Row)
    (outcome : Except Failure Status) :
    Issues count start (Function.update known i none)
      (log ++ [⟨i, .workload (.perform (.insert (keyOf number) row)), outcome⟩]) next := by
  obtain ⟨others, hknown, hothers⟩ := exists_held_perm (Option.map keyOf) known i
  rw [hheld] at hknown
  refine ⟨?_, ?_⟩
  · rw [taken_append]
    exact (List.append_nil (taken log)).symm ▸ h.numbered.mono fun hassumed => hassumed.append _
  · rw [taken_append, issued_append]
    have hsame : (issued log ++ [keyOf number] ++ held (Option.map keyOf)
        (Function.update known i none)).Perm (issued log ++ held (Option.map keyOf) known) := by
      rw [List.append_assoc]
      exact (((hothers none).append_left [keyOf number]).trans hknown.symm).append_left _
    refine hsame.subperm.trans (h.keys.trans ?_)
    rw [show Served.taken? ⟨i, .workload (.perform (.insert (keyOf number) row)), outcome⟩ = none
      from rfl, Option.toList_none, List.append_nil]

end Issues

/-- Every step of the callers keeps the invariant. -/
theorem Issues.turn [Machine] {start : UInt64} {known : Fin n → Option UInt64} {w : Workload}
    {c : Crew stepCalls α (Phase n) n} {i : Fin n}
    (h : Issues w.options.recordCount start known c.log c.shared.numbers.next) {call : StepCall}
    {rest : call.Answer → Program stepCalls α}
    (hpending : (c.members i).pending = .inr ⟨call, rest⟩)
    (hallows : issuing.allows (known i) call) :
    Issues w.options.recordCount start
      (Function.update known i (issuing.next (known i) call (Phase.answer w i call c.shared).1))
      (c.turn (Phase.answer w) i).log (c.turn (Phase.answer w) i).shared.numbers.next := by
  have hsame : Function.update known i (known i) = known := Function.update_eq_self i known
  rw [Crew.turn_of_pending_inr hpending]
  cases call with
  | assumeLoaded =>
    rw [Phase.answer_assumeLoaded]
    exact hsame.symm ▸ h.assume i
  | client call =>
    have hcall : ∀ task worker, call ≠ .perform task worker := by
      rintro task worker rfl
      exact hallows
    have hnumbers : (Phase.answer w i (.client call) c.shared).2.numbers = c.shared.numbers :=
      Phase.numbers_answer_client hcall
    rw [hnumbers]
    exact hsame.symm ▸ h.other rfl rfl
  | workload call =>
    cases call with
    | takeNumber =>
      rw [Phase.answer_takeNumber]
      exact h.take i
    | perform op =>
      obtain ⟨registry, -, hanswer⟩ := Phase.answer_perform w i c.shared op
      rw [hanswer]
      cases op with
      | insert key row =>
        obtain ⟨number, row, hheld, ⟨⟩⟩ := hallows rfl
        exact h.insert i hheld row _
      | _ => exact hsame.symm ▸ h.other rfl rfl

/-- What is known of the numbers taken and the keys inserted under, since the number that was next
was `start`, if callers go on after `count` records: the numbers ascend until the last machine word
was taken, and so do the keys of numbers with at most ten digits; every insert has a key of its own,
that of a number taken; the numbers follow one another without a gap until somebody goes on after
loaded records; and the first is `start` if so many records were numbered already. -/
structure NumberedOnce (count : Nat) (start : UInt64) (log : List (Served stepCalls n)) : Prop where
  ascending : (∀ number ∈ (taken log).dropLast, number.toNat + 1 < UInt64.size) →
    (taken log).Pairwise (· < ·) ∧ (issued log).Nodup ∧
      ((∀ number ∈ taken log, number.toNat < 10 ^ 10) → ((taken log).map keyOf).Pairwise (· < ·))
  keys : (issued log).Subperm ((taken log).map keyOf)
  consecutive : ¬ Assumed log → taken log = (List.range (taken log).length).map fun j =>
    start + UInt64.ofNat j
  first : UInt64.ofNat count ≤ start → ∀ number, (taken log).head? = some number → number = start

/-- However the steps of callers are interleaved. -/
theorem numbers_ascend [Machine] (w : Workload) (callers : Fin n → Program callerCalls α)
    (phase : Phase n) (schedule : List (Fin n)) :
    NumberedOnce w.options.recordCount phase.numbers.next
      (Caller.run w callers phase schedule).log := by
  let Keeps (c : Crew stepCalls α (Phase n) n) : Prop :=
    c.Conforms issuing (fun _ _ _ => True) fun known c =>
      Issues w.options.recordCount phase.numbers.next known c.log c.shared.numbers.next
  have hstart : Keeps (Crew.start (fun i => Caller.steps w (callers i)) phase) := by
    refine ⟨fun _ => none, fun i => Caller.follows_issuing (callers i) none, ?_⟩
    refine ⟨Numbered.start_nil, ?_⟩
    have hnone : held (Option.map keyOf) (fun _ : Fin n => none) = [] := by simp [held]
    exact hnone ▸ List.Subperm.refl _
  have hrun : Keeps (Caller.run w callers phase schedule) :=
    Crew.run_preserves (fun c i hc => hc.turn fun known call rest _ hissues hpending hallows =>
      ⟨trivial, hissues.turn hpending hallows⟩) hstart schedule
  obtain ⟨known, -, hissues⟩ := hrun
  refine ⟨fun hsmall => ?_, ?_, fun hnone => (hissues.numbered.consecutive hnone).2, ?_⟩
  · have hascending := hissues.numbered.ascending hsmall
    have hdistinct := hascending.imp fun hlt => UInt64.ne_of_lt hlt
    refine ⟨hascending, ?_, fun hdigits => ?_⟩
    · obtain ⟨keys, hperm, hsublist⟩ := hissues.keys
      have hnodup := hsublist.nodup (List.Nodup.map keyOf_injective hdistinct)
      exact (List.nodup_append.1 (hperm.nodup_iff.1 hnodup)).1
    · refine List.pairwise_map.2 (hascending.imp_of_mem fun _ hmem hlt => ?_)
      exact recordKey_lt (UInt64.lt_iff_toNat_lt.1 hlt) (hdigits _ hmem)
  · exact (List.sublist_append_left _ _).subperm.trans hissues.keys
  · intro hstart number hnumber
    have hfirst := hissues.numbered.first hstart
    rw [List.head?_append, hnumber] at hfirst
    exact Option.some.inj hfirst

end StoreBench
