import StoreBench.Proofs.DistinctCandidates
import StoreBench.Proofs.Traces
import StoreBench.Proofs.WellConfigured
/-!
# Requests are within the options

Whoever answers it, a call of a workload requests one operation of a store. The operation is of a
kind with a positive weight, or the one kind of the task; its key, its count, its fields and its
values are those that the options ask for; and the call answers as the operation came out. A call
that writes can fail before that, over filler that memory does not hold.
-/

namespace StoreBench

open Skew

/-! ## Pools of workers -/

namespace Skew.BytePool

variable {pool : BytePool}

/-- The blocks of the pool are those that it was made with, whichever it has come to. -/
def IsDrawn [Machine] (pool : BytePool) : Prop :=
  ∃ count s drawn rest, draw? count s = .ok (drawn, rest) ∧ pool.blocks = drawn.blocks

/-- Whatever is taken from a pool, its blocks stay. -/
theorem IsDrawn.moved [Machine] (h : pool.IsDrawn) : pool.next.2.IsDrawn ∧ pool.last.2.IsDrawn ∧
    (∀ count, (pool.fill count).2.IsDrawn) ∧ pool.advance.IsDrawn := ⟨h, h, fun _ => h, h⟩

theorem isDrawn_of_draw? [Machine] {count : Nat} {s rest : Random.Stream}
    (h : draw? count s = .ok (pool, rest)) : pool.IsDrawn := ⟨count, s, pool, rest, h, rfl⟩

theorem IsDrawn.printable [Machine] (h : pool.IsDrawn) : pool.AllBytes fun b => 32 ≤ b ∧ b ≤ 127
    := by
  obtain ⟨count, s, drawn, rest, hdraw, hblocks⟩ := h
  intro block hblock b hb
  rw [hblocks, (of_draw? hdraw).1, List.mem_toArray] at hblock
  exact printable_drawBlocks count s b (List.mem_flatMap.2 ⟨block, hblock, hb⟩)

end Skew.BytePool

/-- The pool of a worker is drawn when the worker is made. -/
theorem Worker.isDrawn_of_ofSeed? [Machine] {seed : UInt64} {poolSize : Nat} {worker : Worker}
    (h : ofSeed? seed poolSize = .ok worker) : worker.pool.IsDrawn := by
  unfold ofSeed? at h
  cases hdraw : BytePool.draw? poolSize (.ofSeed seed) with
  | error failure =>
    rw [hdraw] at h
    cases h
  | ok drawn =>
    rw [hdraw] at h
    cases h
    exact BytePool.isDrawn_of_draw? hdraw

/-! ## Answers -/

/-- Nothing was there to read or to write to. -/
def Operation.Misses : (op : Operation) → Except Failure op.Result → Prop
  | read .., outcome => outcome = .ok none
  | update .., outcome => outcome = .ok .notFound
  | insert .., outcome => outcome = .ok .notFound
  | delete .., outcome => outcome = .ok .notFound
  | scan .., _ => False
  | filter .., _ => False

theorem Operation.map_succeeded_eq_ok_false_iff {op : Operation}
    {outcome : Except Failure op.Result} :
    outcome.map op.succeeded = .ok false ↔ op.Misses outcome := by
  rcases outcome with failure | result
  · cases op <;> simp [Except.map, Misses]
  · cases op with
    | read key fields => cases result <;> simp [Except.map, succeeded, Misses]
    | scan start count fields => simp [Except.map, succeeded, Misses]
    | filter low high fields => simp [Except.map, succeeded, Misses]
    | _ => cases result <;> simp [Except.map, succeeded, Misses]

/-! ## One request a call -/

/-- Whether a task may come to an operation of a kind: an insert, one with a positive weight, or a
filter. -/
def WorkloadOptions.Allows (o : WorkloadOptions) : Task → OperationKind → Prop
  | .insert, kind => kind = .insert
  | .transaction, kind => ∃ weight, 0.0 < weight ∧ (weight, kind) ∈ o.weights
  | .analytic, kind => kind = .filter

namespace Workload

variable {o : WorkloadOptions} {w : Workload} {task : Task} {good : UInt8 → Prop}

theorem allows_of_chooses [Machine] (h : (build (ι := .silent) o).run.value = .ok w)
    {kind : OperationKind} (hkind : w.Chooses task kind) : o.Allows task kind := by
  cases task with
  | insert => exact hkind
  | transaction => exact weight_pos_of_build h hkind
  | analytic => exact hkind

/-- What is on record of taking a number, or none. -/
def taken (number : Option UInt64) : List (Answered workloadCalls) :=
  number.toList.map fun n => ⟨.takeNumber, n⟩

/-- What is on record of a call at one of its stages. -/
def Asked [Machine] (w : Workload) (good : UInt8 → Prop) (task : Task) :
    Stage → List (Answered workloadCalls) → Prop
  | .planning number, log => log = taken number
  | .issued issued, log => ∃ number, log = taken number ++ [⟨.perform issued.op, issued.outcome⟩] ∧
      w.Chooses task issued.op.kind ∧ w.Requests good number issued.op

theorem Asked.answered [Machine] {stage : Stage} {log : List (Answered workloadCalls)}
    (h : w.Asked good task stage log) {call : WorkloadCall}
    (hallows : (w.requests good task).allows stage call) (answer : call.Answer) :
    w.Asked good task ((w.requests good task).next stage call answer)
      (log ++ [⟨call, answer⟩]) := by
  cases stage with
  | issued issued => exact hallows.elim
  | planning number =>
    obtain rfl : log = taken number := h
    cases call with
    | takeNumber =>
      obtain rfl : number = none := hallows
      rfl
    | perform op => exact ⟨number, rfl, hallows⟩

/-- A call requests one operation and answers as it comes out, or it fails over a write and requests
nothing. -/
theorem run_requests [Machine] (w : Workload) (task : Task) {worker : Worker}
    (hworker : worker.pool.AllBytes good) {σ : Type}
    (reply : (call : WorkloadCall) → σ → call.Answer × σ) (outside : σ) :
    let ((result, _), _, log) :=
      (w.run task worker).evaluate (Program.logging (ι := workloadCalls) reply) (outside, [])
    (∃ number failure, result = .error failure ∧ log = taken number ∧
      w.PlanFails task (.planning number) failure) ∨
    ∃ number op outcome, log = taken number ++ [⟨.perform op, outcome⟩] ∧
      w.Chooses task op.kind ∧ w.Requests good number op ∧ result = outcome.map op.succeeded := by
  obtain ⟨stage, hends, hasked⟩ := Program.evaluate_follows
    (I := fun stage (s : σ × List (Answered workloadCalls)) => w.Asked good task stage s.2)
    (Program.logging (ι := workloadCalls) reply)
    (fun stage call s hallows h => ⟨trivial, h.answered hallows _⟩)
    (follows_run_requests hworker) (s := (outside, [])) rfl
  rcases hends with ⟨failure, hresult, hfails⟩ | ⟨issued, rfl, hresult⟩
  · cases stage with
    | planning number => exact .inl ⟨number, failure, hresult, hasked, hfails⟩
    | issued issued =>
      -- Only planning fails.
      obtain ⟨-, -, -, hfails⟩ := hfails
      exact hfails.elim
  · obtain ⟨number, hlog, hchosen, hop⟩ := hasked
    exact .inr ⟨number, issued.op, issued.outcome, hlog, hchosen, hop, hresult⟩

/-- Every request of a workload is within the options that it was built from.

A call of any task, with any worker and whoever answers it, requests one operation, before which it
takes a record number at most. The operation is an insert, one of a kind with a positive weight, or
a filter, as the task says. A key that is read, updated, deleted or scanned from is that of a record
below the number of records; scan counts are between one and the longest; a selection is left out if
all fields are to be read and is of one field otherwise; an update has all fields in order if all
are to be written and one field otherwise; a value of the first field is one of the pool, and every
other value has the length of fields and bytes between 32 and 127; both bounds of a filter are
values of the pool under the name of the first field. The call answers as the operation comes out:
that it did not succeed exactly if nothing was there.

The only other thing that can happen is that a task which allows writes fails over filler that
memory does not hold, and then no operation is requested. -/
theorem requests_within_options [Machine] (hbuild : (build (ι := .silent) o).run.value = .ok w)
    (task : Task) {worker : Worker} (hworker : worker.pool.IsDrawn) {σ : Type}
    (reply : (call : WorkloadCall) → σ → call.Answer × σ) (outside : σ) :
    let ((result, _), _, log) :=
      (w.run task worker).evaluate (Program.logging (ι := workloadCalls) reply) (outside, [])
    w.options = o ∧
    ((∃ number op outcome, log = taken number ++ [⟨.perform op, outcome⟩] ∧
      o.Allows task op.kind ∧ w.Requests (fun b => 32 ≤ b ∧ b ≤ 127) number op ∧
      result = outcome.map op.succeeded ∧ (result = .ok false ↔ op.Misses outcome)) ∨
    ∃ number failure, log = taken number ∧ result = .error failure ∧
      (o.Allows task .update ∨ o.Allows task .insert) ∧ 1 < o.fieldCount ∧
      (reserve o.fieldLength 1 : Except Failure Unit) = .error failure) := by
  have hoptions : w.options = o := (of_build hbuild).1
  refine ⟨hoptions, ?_⟩
  rcases run_requests w task hworker.printable reply outside with
    ⟨number, failure, hresult, hlog, kind, hchosen, hkind, hcount, hreserve⟩ |
    ⟨number, op, outcome, hlog, hchosen, hop, hresult⟩
  · rw [hoptions] at hcount hreserve
    have hallows : o.Allows task kind := allows_of_chooses hbuild hchosen
    refine .inr ⟨number, failure, hlog, hresult, ?_, hcount, hreserve⟩
    rcases hkind with rfl | rfl
    · exact .inl hallows
    · exact .inr hallows
  · refine .inl ⟨number, op, outcome, hlog, allows_of_chooses hbuild hchosen, hop, hresult, ?_⟩
    rw [hresult]
    exact Operation.map_succeeded_eq_ok_false_iff

/-! ### One field of filler -/

section

attribute [local instance] Machine.largest

theorem exists_worker : ∃ worker, Worker.ofSeed? 1 1 = .ok worker := by
  have hworker : ((Worker.ofSeed? 1 1).toOption.any fun _ => true) = true := by decide +kernel
  obtain ⟨worker, hworker, -⟩ := exists_ok_of_any hworker
  exact ⟨worker, hworker⟩

/-- Filler of three bytes fits into memory, so every call requests one operation. -/
theorem requests_within_options_small : ∃ w worker,
    (build (ι := .silent) (Team.small 3).workload).run.value = .ok w ∧
      Worker.ofSeed? 1 1 = .ok worker ∧
      ∀ (task : Task) (σ : Type) (reply : (call : WorkloadCall) → σ → call.Answer × σ)
        (outside : σ),
        let ((result, _), _, log) :=
          (w.run task worker).evaluate (Program.logging (ι := workloadCalls) reply) (outside, [])
        ∃ number op outcome, log = taken number ++ [⟨.perform op, outcome⟩] ∧
          (Team.small 3).workload.Allows task op.kind ∧
          w.Requests (fun b => 32 ≤ b ∧ b ≤ 127) number op ∧
          (result = .ok false ↔ op.Misses outcome) := by
  obtain ⟨w, hbuild, -⟩ := Team.exists_built_small (by decide : 3 ∈ [3, 2 ^ 32, 2 ^ 63])
  obtain ⟨worker, hworker⟩ := exists_worker
  refine ⟨w, worker, hbuild, hworker, fun task σ reply outside => ?_⟩
  obtain ⟨-, ⟨number, op, outcome, hlog, hkind, hop, -, hmisses⟩ | ⟨_, _, -, -, -, -, hreserve⟩⟩ :=
    requests_within_options hbuild task (Worker.isDrawn_of_ofSeed? hworker) reply outside
  · exact ⟨number, op, outcome, hlog, hkind, hop, hmisses⟩
  · cases hreserve

/-- No block of memory holds the filler of an insert, whose call requests no operation and comes to
a fault. -/
theorem insert_requests_nothing : ∃ w worker,
    (build (ι := .silent) (Team.small (2 ^ 63)).workload).run.value = .ok w ∧
      Worker.ofSeed? 1 1 = .ok worker ∧
      ∀ (σ : Type) (reply : (call : WorkloadCall) → σ → call.Answer × σ) (outside : σ),
        let ((result, _), _, log) :=
          (w.run .insert worker).evaluate (Program.logging (ι := workloadCalls) reply) (outside, [])
        result = .error .fault ∧ ∀ x ∈ log, x.request = .takeNumber := by
  obtain ⟨w, hbuild, -⟩ := Team.exists_built_small (by decide : 2 ^ 63 ∈ [3, 2 ^ 32, 2 ^ 63])
  obtain ⟨worker, hworker⟩ := exists_worker
  have hoptions := (of_build hbuild).1
  refine ⟨w, worker, hbuild, hworker, fun σ reply outside => ?_⟩
  have hprintable := (Worker.isDrawn_of_ofSeed? hworker).printable
  rcases run_requests w .insert hprintable reply outside with
    ⟨number, failure, hresult, hlog, _, -, -, -, hreserve⟩ |
    ⟨number, op, outcome, -, hchosen, hop, -⟩
  · rw [hoptions] at hreserve
    have hfault : (reserve (Team.small (2 ^ 63)).workload.fieldLength 1 : Except Failure Unit) =
        .error .fault := reserve_eq_error_iff.2 (.inl ⟨rfl, by decide⟩)
    obtain rfl : failure = .fault := Except.error.inj (hreserve.symm.trans hfault)
    refine ⟨hresult, fun x hx => ?_⟩
    rw [hlog] at hx
    obtain ⟨n, -, rfl⟩ := List.mem_map.1 hx
    rfl
  · -- An insert that was requested has its filler.
    have hfits : w.FillerFits := by
      cases op with
      | insert key row => exact hop.2.2
      | _ => cases hchosen
    rw [FillerFits, hoptions] at hfits
    exact absurd (hfits (by decide)) (by decide)

end

end Workload

end StoreBench
