import StoreBench.Client.Session
import StoreBench.Proofs.Numbers
import StoreBench.Proofs.WorkloadRows
/-!
# Tasks in a session

A session that performs a task plans it, which takes a record number at most, and then lets the
adapter perform the one operation planned; around that nothing changes but the journal. Where the
adapter is bound to an engine that holds a table of the workload, the answer is the one of the
table.
-/

namespace StoreBench

namespace Session

open Workload (Stage Issued)

variable {w : Workload} {task : Task} {s before after : Session}

/-! ## Measured operations -/

/-- Measuring an operation adds to the journal only. -/
theorem performMeasured_eq [Machine] (op : Operation) (s : Session) :
    ∃ registry, ((s.adapter.perform op).run s.registry).2.AgreesButJournal registry ∧
      (performMeasured op).run s =
        (((s.adapter.perform op).run s.registry).1, { s with registry }) := by
  have hclick : ∀ (sensors : List Sensor) (outcome : Except Failure op.Result) (s : Session),
      ∃ registry, s.registry.AgreesButJournal registry ∧
        ((Program.interpret (ι := storeCalls) record perform
          (sensors.forM Program.click >>= fun _ => pure outcome)).run s) =
            (outcome, { s with registry }) := by
    intro sensors outcome
    induction sensors with
    | nil => exact fun s => ⟨s.registry, .refl _, rfl⟩
    | cons sensor sensors ih =>
      intro s
      obtain ⟨registry, hagrees, hrun⟩ := ih ((record (.click sensor)).run s).2
      exact ⟨registry, (Registry.record_agrees _ _).trans hagrees, hrun⟩
  exact hclick (Measured.sensors op _) _ ((perform op).run s).2

/-! ## Performing a task -/

/-- From one session to another nothing has happened but planning. -/
def Plans (before : Session) (number : Option UInt64) (after : Session) : Prop :=
  ∃ registry numbers, before.registry.AgreesButJournal registry ∧
    before.numbers.Hands number numbers ∧ after = { before with registry, numbers }

/-- From one session to another an operation was planned for a task and issued. -/
def Performs [Machine] (w : Workload) (task : Task) (before : Session) (issued : Issued)
    (after : Session) :
    Prop :=
  ∃ number planned, before.Plans number planned ∧ w.Chooses task issued.op.kind ∧
    w.Issues number issued.op ∧
    issued.outcome = ((planned.adapter.perform issued.op).run planned.registry).1 ∧
    ∃ registry, ((planned.adapter.perform issued.op).run planned.registry).2.AgreesButJournal
      registry ∧ after = { planned with registry }

/-- What has become of a session by a stage of a task. -/
def Reaches [Machine] (w : Workload) (task : Task) (before : Session) : Stage → Session → Prop
  | .planning number => before.Plans number
  | .issued issued => before.Performs w task issued

theorem Plans.refl (s : Session) : s.Plans none s :=
  ⟨s.registry, s.numbers, .refl _, rfl, rfl⟩

theorem Reaches.record [Machine] {stage : Stage} (h : before.Reaches w task stage s) (event : Event)
    :
    before.Reaches w task stage ((record event).run s).2 := by
  cases stage with
  | planning number =>
    obtain ⟨registry, numbers, hagrees, hhands, rfl⟩ := h
    exact ⟨_, numbers, hagrees.trans (Registry.record_agrees event _), hhands, rfl⟩
  | issued issued =>
    obtain ⟨number, planned, hplans, hchosen, hop, houtcome, registry, hagrees, rfl⟩ := h
    exact ⟨number, planned, hplans, hchosen, hop, houtcome, _,
      hagrees.trans (Registry.record_agrees event _), rfl⟩

theorem Reaches.answer [Machine] {stage : Stage} (h : before.Reaches w task stage s)
    {call : WorkloadCall} (hallows : (w.calls task).allows stage call) :
    before.Reaches w task
      ((w.calls task).next stage call ((answerWorkload performMeasured call).run s).1)
      ((answerWorkload performMeasured call).run s).2 := by
  cases stage with
  | issued issued => exact hallows.elim
  | planning number =>
    cases call with
    | takeNumber =>
      obtain rfl : number = none := hallows
      obtain ⟨registry, numbers, hagrees, rfl, rfl⟩ := h
      exact ⟨registry, _, hagrees, rfl, rfl⟩
    | perform op =>
      obtain ⟨registry, hagrees, hrun⟩ := performMeasured_eq op s
      have hanswer : (answerWorkload performMeasured (.perform op)).run s =
        (((s.adapter.perform op).run s.registry).1, { s with registry }) := hrun
      rw [hanswer]
      exact ⟨number, s, h, hallows.1, hallows.2, rfl, registry, hagrees, rfl⟩

/-- A run that keeps to the calls of a task leaves the session where its last stage says. -/
theorem interpret_reaches [Machine] {α : Type} {program : Program workloadCalls α}
    {ends : Stage → α → Prop}
    (h : program.Follows (w.calls task) ends (.planning none)) (before : Session) :
    let ran := (program.interpret record (answerWorkload performMeasured)).run before
    ∃ stage, ends stage ran.1 ∧ before.Reaches w task stage ran.2 :=
  Program.interpret_follows (I := before.Reaches w task)
    (fun event _ _ h => Reaches.record h event)
    (fun _ _ _ hallows h => ⟨trivial, Reaches.answer h hallows⟩) h (Plans.refl before)

/-- A task fails while it is planned, or its answer is the one of the operation issued. -/
theorem perform_task [Machine] (w : Workload) (task : Task) (worker : Worker) (before : Session) :
    let performed := (answerClient w (.perform task worker)).run before
    (∃ number failure, performed.1.1 = .error failure ∧
      w.FillerFails (.planning number) failure ∧ before.Plans number performed.2) ∨
    ∃ issued, performed.1.1 = issued.success ∧ before.Performs w task issued performed.2 := by
  obtain ⟨stage, hends, hreaches⟩ := interpret_reaches (Workload.follows_run worker) before
  rcases hends with ⟨failure, hfailure, hfails⟩ | ⟨issued, rfl, hsuccess⟩
  · cases stage with
    | planning number => exact .inl ⟨number, failure, hfailure, hfails, hreaches⟩
    | issued issued => exact hfails.elim
  · exact .inr ⟨issued, hsuccess, hreaches⟩

end Session

end StoreBench
