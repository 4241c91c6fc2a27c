import StoreBench.Format.Schemaless
import StoreBench.Proofs.Protocol
/-!
# The calls of operations that write no row

Reads, scans, deletes and filters of the schemaless format follow any protocol that lets them make
their calls and shows them values that decode, whatever else it is about. What a value has to be is
left open; inserts and updates are up to each protocol.
-/

namespace StoreBench

variable {κ : Type}

namespace SchemalessFormat

/-- A protocol under which stored values that are `good` can be looked at in every way, and keys
deleted, failing as told at most. -/
structure Reads (f : SchemalessFormat) (P : Protocol keyValueCalls κ) (fails : Failure → Prop)
    (good : Bytes → Prop) : Prop where
  allows_get : ∀ k key, P.allows k (.get key)
  allows_visit : ∀ k start, P.allows k (.visit start)
  allows_delete : ∀ k key, P.allows k (.delete key)
  got : ∀ k key value, P.expects k (.get key) (.ok (some value)) → good value
  visited : ∀ k start entries, P.expects k (.visit start) (.ok entries) → ∀ x ∈ entries, good x.2
  fails_get : ∀ k key failure, P.expects k (.get key) (.error failure) → fails failure
  fails_visit : ∀ k start failure, P.expects k (.visit start) (.error failure) → fails failure
  fails_delete : ∀ k key failure, P.expects k (.delete key) (.error failure) → fails failure
  fails_bounds : ∀ cause, fails (.raised (.invalidArgument cause))
  shows : ∀ k key value fields, good value →
    (f.decodeStored key value fields).Follows P fails (fun _ _ => True) k

namespace Reads

variable {f : SchemalessFormat} {P : Protocol keyValueCalls κ} {fails : Failure → Prop}
  {good : Bytes → Prop} (h : f.Reads P fails good) {k : κ}

include h

/-- What comes after a look-up, if a good value or nothing was found. -/
theorem follows_get {α : Type} {key : Bytes} {rest : Option Bytes → Attempt keyValueCalls α}
    {ends : κ → α → Prop}
    (hrest : ∀ found, P.expects k (.get key) (.ok found) →
      (∀ value, found = some value → good value) →
      (rest found).Follows P fails ends (P.next k (.get key) (.ok found))) :
    ((KeyValueCall.get key).attempt >>= rest).Follows P fails ends k := by
  rw [Attempt.follows_bind]
  refine ⟨h.allows_get k key, fun answer hanswer => ?_⟩
  cases answer with
  | error failure => exact h.fails_get k key failure hanswer
  | ok found =>
    refine hrest found hanswer ?_
    rintro value rfl
    exact h.got k key value hanswer

theorem follows_visit {α : Type} {start : Bytes}
    {rest : List (Bytes × Bytes) → Attempt keyValueCalls α} {ends : κ → α → Prop}
    (hrest : ∀ entries, (∀ x ∈ entries, good x.2) → ∀ k, (rest entries).Follows P fails ends k) :
    ((KeyValueCall.visit start).attempt >>= rest).Follows P fails ends k := by
  rw [Attempt.follows_bind]
  refine ⟨h.allows_visit k start, fun answer hanswer => ?_⟩
  cases answer with
  | error failure => exact h.fails_visit k start failure hanswer
  | ok entries => exact hrest entries (h.visited k start entries hanswer) _

theorem follows_match? (predicate : Predicate) (fields : Selection) (key : Bytes) {value : Bytes}
    (hvalue : good value) :
    (f.match? predicate fields key value).Follows P fails (fun _ _ => True) k := by
  rw [match?, Attempt.follows_bind]
  refine (h.shows k key value none hvalue).imp fun k row _ => ?_
  split
  · cases fields with
    | none => trivial
    | some wanted =>
      rw [Attempt.follows_bind]
      exact (h.shows k key value (some wanted) hvalue).imp fun _ _ _ => trivial
  · trivial

/-- Every operation that writes no row. -/
theorem follows_perform {op : Operation} (hinsert : op.kind ≠ .insert)
    (hupdate : op.kind ≠ .update) :
    (f.perform op).Follows P fails (fun _ _ => True) k := by
  cases op with
  | read key fields =>
    refine h.follows_get fun found _ hfound => ?_
    cases found with
    | none => trivial
    | some value =>
      refine Attempt.follows_bind.2 ?_
      exact (h.shows _ key value fields (hfound value rfl)).imp fun _ _ _ => trivial
  | scan start count fields =>
    rw [perform, scan, KeyValueCall.scan]
    by_cases hzero : count = 0
    · simp [hzero]
    · rw [if_neg hzero, bind_assoc]
      refine h.follows_visit fun entries hentries k => Attempt.follows_mapM (fun x hx k => ?_) k
      exact h.shows k x.1 x.2 fields (hentries x (List.mem_of_mem_take hx))
  | delete key =>
    refine Attempt.follows_bind.2 ⟨h.allows_delete k key, fun answer hanswer => ?_⟩
    cases answer with
    | error failure => exact h.fails_delete k key failure hanswer
    | ok done => trivial
  | filter low high fields =>
    rw [perform, filter, Attempt.follows_bind, Attempt.follows_ofExcept]
    refine ⟨fun predicate _ => ?_, fun failure hfailure => ?_⟩
    · refine h.follows_visit fun entries hentries k => ?_
      exact Attempt.follows_filterMapM (fun x hx k =>
        h.follows_match? predicate fields x.1 (hentries x hx)) k
    · cases hpredicate : Predicate.ofBounds? low high with
      | ok predicate => rw [hpredicate] at hfailure; cases hfailure
      | error cause =>
        rw [hpredicate] at hfailure
        cases hfailure
        exact h.fails_bounds cause
  | insert key row => exact absurd rfl hinsert
  | update key updates => exact absurd rfl hupdate

end Reads

end SchemalessFormat

end StoreBench
