import StoreBench.Client.Session
import StoreBench.Proofs.ClientCalls
import StoreBench.Proofs.Journals
import StoreBench.Proofs.Plans
import StoreBench.Proofs.References
/-!
# What each layer tells of operations

The workload tells of an operation when it is planned, the adapter when it is called, and the
measurement when it is done. What they tell is said here layer by layer, from the engines upwards,
for steps that start and end with engines that merge nothing but rows. Engines and handles tell of
no operation, an adapter tells of each of its operations and of every error, and a task that comes
to an answer tells of one operation, the same in all layers.
-/

namespace StoreBench

variable {α : Type}

/-! ## Engines -/

/-- Where the engine merges, it merges encoded rows. -/
def Engine.MergesRows : Engine → Prop
  | keyValue e => ∀ operator ∈ e.mergeOperator, operator = Row.mergeEncoded
  | tuple _ => True

/-- The engines that are opened merge encoded rows. -/
def Opener.MergesRows (opener : Opener) : Prop :=
  ∀ p engine, opener.run p = .ok engine → engine.MergesRows

theorem Opener.mergesRows_memory : Opener.memory.MergesRows := by
  intro p engine h
  rw [Opener.memory_ok h]
  rintro _ ⟨⟩
  rfl

theorem Opener.mergesRows_memoryTuples : Opener.memoryTuples.MergesRows := by
  intro p engine h
  have hkind : engine.kind = .tuple := Opener.memoryTuples.kind_of_run h
  cases engine with
  | keyValue e => cases hkind
  | tuple e => trivial

namespace KeyValueEngine

variable {e : KeyValueEngine} (h : Engine.MergesRows (.keyValue e))

include h

theorem mergesRows_serve (call : KeyValueCall) :
    Engine.MergesRows (.keyValue (e.serve call).2) := by
  intro operator hoperator
  rw [mergeOperator_serve] at hoperator
  exact h operator hoperator

/-- Answering a call is no operation. -/
theorem tallies_answer (call : KeyValueCall) : (e.answer call).Tallies [] := by
  have hmerge : ∀ key operand, (e.mergeInto key operand).Tallies [] := by
    intro key operand
    unfold mergeInto
    cases hoperator : e.mergeOperator with
    | none => exact Program.tallies_done _
    | some operator =>
      obtain rfl : operator = Row.mergeEncoded := h operator hoperator
      refine (Row.tallies_mergeEncoded _ operand).bind fun merged => ?_
      cases merged <;> exact Program.tallies_done _
  unfold answer
  split
  · exact Program.tallies_done _
  · cases call with
    | merge key operand => exact hmerge key operand
    | _ => exact Program.tallies_done _

end KeyValueEngine

namespace SharedHandle

/-- What became of an engine is noted, which is no operation. -/
theorem tallies_noted {ι : Interface} {sensor : Sensor} (h : sensor.isTally = false)
    {level : LogLevel} {message : String} {a : α} :
    (do Program.click sensor; Program.log level message; return a : Program ι α).Tallies [] :=
  (Program.tallies_click_of_not_isTally h).bind fun _ =>
    (Program.tallies_emit (.log level message)).bind fun _ => Program.tallies_done a

theorem tallies_acquire {ε : Type} (handle : SharedHandle ε) : handle.acquire.Tallies [] := by
  unfold acquire
  cases handle.engine with
  | some engine => exact Program.tallies_done _
  | none =>
    refine (Program.tallies_call _).bind fun opened => ?_
    rcases opened with (error | _ | _) | engine
    · exact tallies_noted rfl
    · exact Program.tallies_done _
    · exact Program.tallies_done _
    · exact tallies_noted rfl

theorem tallies_release {ε : Type} (handle : SharedHandle ε) : handle.release.Tallies [] := by
  unfold release
  split
  · exact Program.tallies_done _
  · refine (Program.tallies_call _).bind fun closed => ?_
    rcases closed with (error | _ | _) | _
    · exact tallies_noted rfl
    · exact Program.tallies_done _
    · exact Program.tallies_done _
    · exact tallies_noted rfl
  · exact Program.tallies_done _

end SharedHandle

/-! ## The registry -/

namespace Registry

/-- The engines merge encoded rows, those that are open and those that will be opened. -/
structure MergesRows (r : Registry) : Prop where
  engines : ∀ engine ∈ r.engines, engine.MergesRows
  openers : ∀ x ∈ r.registrations, x.opener.MergesRows

theorem mergesRows_standard (p : Properties) : (standard p).MergesRows := by
  have hregistrations : (standard p).registrations =
      [⟨"memory", .memory, .fresh "memory"⟩, ⟨"tuple", .memoryTuples, .fresh "tuple"⟩] := rfl
  refine ⟨List.forall_mem_nil _, ?_⟩
  rw [hregistrations, List.forall_mem_cons, List.forall_mem_singleton]
  exact ⟨Opener.mergesRows_memory, Opener.mergesRows_memoryTuples⟩

/-- The journal of a registry whose engines merge rows. -/
def ledger : Ledger Registry := ⟨MergesRows, journal⟩

theorem tells_record (event : Event) :
    ledger.Tells (record event) fun _ sensors => sensors = event.tally :=
  fun r h => ⟨⟨h.engines, h.openers⟩, event.tally, rfl, .event event r.journal⟩

theorem quiet_log (level : LogLevel) (message : String) : ledger.Quiet (log level message) :=
  tells_record (.log level message)

theorem quiet_click {sensor : Sensor} (h : sensor.isTally = false) :
    ledger.Quiet (click sensor) := by
  have hclick : (Event.click sensor).tally = [] := by simp [Event.tally, h]
  exact (tells_record (.click sensor)).imp fun _ _ hsensors => hsensors.trans hclick

theorem quiet_setEngine (id : Nat) {engine : Engine} (h : engine.MergesRows) :
    ledger.Quiet (setEngine id engine) := by
  refine Ledger.quiet_of_journal_eq fun r hr => ⟨⟨fun other hother => ?_, hr.openers⟩, rfl⟩
  rcases List.mem_or_eq_of_mem_set hother with hold | rfl
  · exact hr.engines other hold
  · exact h

theorem quiet_setHandle (name : String) (handle : SharedHandle Nat) :
    ledger.Quiet (setHandle name handle) := by
  refine Ledger.quiet_of_journal_eq fun r hr => ⟨⟨hr.engines, fun x hx => ?_⟩, rfl⟩
  obtain ⟨y, hy, rfl⟩ := List.mem_map.1 hx
  have hopener := hr.openers y hy
  split <;> exact hopener

theorem tells_runSilent {p : Program .silent α} (hp : p.Tallies []) :
    ledger.Tells (runSilent p) fun a sensors => a = p.value ∧ sensors = [] := by
  intro r h
  obtain ⟨hkeeps, sensors, hquiet, hgrew⟩ :=
    Program.interpret_quiet tells_record (fun request => Empty.elim request) hp r h
  exact ⟨hkeeps, sensors, ⟨(runSilent_eq p r).1, hquiet⟩, hgrew⟩

theorem quiet_openEngine {x : Registration} (h : x.opener.MergesRows) :
    ledger.Quiet (openEngine x) := by
  refine Ledger.quiet_of_journal_eq fun r hr => ?_
  rw [openEngine_eq]
  cases hrun : x.opener.run r.properties with
  | error failure => exact ⟨hr, rfl⟩
  | ok engine =>
    refine ⟨⟨?_, hr.openers⟩, rfl⟩
    exact List.forall_mem_append.2 ⟨hr.engines, List.forall_mem_singleton.2 (h _ _ hrun)⟩

theorem quiet_closeEngine (id : Nat) : ledger.Quiet (closeEngine id) := by
  unfold closeEngine
  refine Ledger.tells_get_bind fun r hr => ?_
  cases hengine : r.engines[id]? with
  | none => exact Ledger.tells_pure rfl
  | some engine =>
    have hmerges : engine.MergesRows := hr.engines engine (List.mem_of_getElem? hengine)
    cases engine with
    | keyValue e =>
      have hclosed : Engine.MergesRows (.keyValue e.close.2) := by
        unfold KeyValueEngine.close
        split <;> exact hmerges
      exact (quiet_setEngine id hclosed).quiet_bind fun _ => Ledger.tells_pure rfl
    | tuple e =>
      have hclosed : Engine.MergesRows (.tuple e.close.2) := trivial
      exact (quiet_setEngine id hclosed).quiet_bind fun _ => Ledger.tells_pure rfl

theorem quiet_onHandle (name : String)
    {use : SharedHandle Nat → Program (lifecycle Nat) (Except Failure α × SharedHandle Nat)}
    (huse : ∀ handle, (use handle).Tallies []) : ledger.Quiet (onHandle name use) := by
  unfold onHandle
  refine Ledger.tells_get_bind fun r hr => ?_
  cases hfind : r.find? name with
  | none => exact Ledger.tells_pure rfl
  | some x =>
    have hopener : x.opener.MergesRows := hr.openers x (List.mem_of_find?_eq_some hfind)
    have hanswer : ∀ call, ledger.Quiet (answerLifecycle x call) := by
      intro call
      cases call with
      | openEngine => exact quiet_openEngine hopener
      | closeEngine id => exact quiet_closeEngine id
    refine (Program.interpret_quiet tells_record hanswer (huse x.handle)).quiet_bind fun used => ?_
    exact (quiet_setHandle name used.2).quiet_bind fun _ => Ledger.tells_pure rfl

theorem quiet_answerKeyValue (id : Nat) (call : KeyValueCall) :
    ledger.Quiet (answerKeyValue id call) := by
  unfold answerKeyValue
  refine Ledger.tells_get_bind fun r hr => ?_
  cases hengine : r.engines[id]? with
  | none => exact Ledger.tells_pure rfl
  | some engine =>
    have hmerges : engine.MergesRows := hr.engines engine (List.mem_of_getElem? hengine)
    cases engine with
    | tuple e => exact Ledger.tells_pure rfl
    | keyValue e =>
      refine (tells_runSilent (KeyValueEngine.tallies_answer hmerges call)).bind ?_
      rintro answered _ ⟨rfl, rfl⟩
      exact (quiet_setEngine id (KeyValueEngine.mergesRows_serve hmerges call)).quiet_bind fun _ =>
        Ledger.tells_pure rfl

theorem quiet_answerTuple (id : Nat) (call : TupleCall) : ledger.Quiet (answerTuple id call) := by
  unfold answerTuple
  refine Ledger.tells_get_bind fun r _ => ?_
  cases r.engines[id]? with
  | none => exact Ledger.tells_pure rfl
  | some engine =>
    cases engine with
    | keyValue e => exact Ledger.tells_pure rfl
    | tuple e =>
      have hanswered : Engine.MergesRows (.tuple (e.answer call).2) := trivial
      exact (quiet_setEngine id hanswered).quiet_bind fun _ => Ledger.tells_pure rfl

end Registry

/-! ## Adapters -/

/-- The sensors that an outcome moves as an error. -/
def errorSensors : Except Failure α → List Sensor
  | .error (.raised _) => [.adapterError]
  | _ => []

namespace EngineAdapter

open Registry

theorem tells_counted (result : Except Failure α) : ledger.Tells (counted result)
    fun counted sensors => counted = result ∧ sensors = errorSensors result := by
  intro r h
  rcases result with (error | _ | _) | a
  · exact ⟨⟨h.engines, h.openers⟩, _, ⟨rfl, rfl⟩, .event (.click .adapterError) r.journal⟩
  · exact ⟨h, _, ⟨rfl, rfl⟩, .refl _⟩
  · exact ⟨h, _, ⟨rfl, rfl⟩, .refl _⟩
  · exact ⟨h, _, ⟨rfl, rfl⟩, .refl _⟩

theorem tells_report (op : Operation) (outcome : Except Failure op.Result) :
    ledger.Tells (report op outcome) fun reported sensors =>
      reported = outcome ∧ sensors = errorSensors outcome := by
  refine (tells_counted outcome).bind ?_
  rintro result _ ⟨rfl, rfl⟩
  cases result with
  | error failure => exact Ledger.tells_pure ⟨rfl, List.append_nil _⟩
  | ok value =>
    have hclick : ledger.Quiet ((notFoundSensor? op value).forM Registry.click) := by
      cases hsensor : notFoundSensor? op value with
      | none => exact Ledger.tells_pure rfl
      | some sensor =>
        refine quiet_click ?_
        unfold notFoundSensor? at hsensor
        split at hsensor <;> cases hsensor <;> rfl
    exact hclick.quiet_bind fun _ => Ledger.tells_pure ⟨rfl, rfl⟩

theorem quiet_performOn [Machine] (op : Operation) (binding : Binding) :
    ledger.Quiet (performOn op binding) := by
  cases binding with
  | keyValue id f =>
    exact Program.interpret_quiet tells_record (quiet_answerKeyValue id) (f.isQuiet_perform op)
  | tuple id f =>
    exact Program.interpret_quiet tells_record (quiet_answerTuple id) (f.isQuiet_perform op)

variable (a : EngineAdapter)

/-- Every operation is told of when it is called, and as an error once it has ended in one. -/
theorem tells_perform [Machine] (op : Operation) : ledger.Tells
    (a.perform op) fun outcome sensors =>
    sensors = .adapterOperation op.kind :: errorSensors outcome := by
  have hcalled : ledger.Tells (Registry.click (.adapterOperation op.kind)) fun _ sensors =>
      sensors = [.adapterOperation op.kind] := tells_record _
  cases hbinding : a.binding with
  | none =>
    rw [perform, hbinding]
    refine hcalled.bind ?_
    rintro _ _ rfl
    refine (tells_counted _).imp ?_
    rintro _ _ ⟨rfl, rfl⟩
    rfl
  | some binding =>
    rw [perform_eq_report hbinding]
    refine hcalled.bind ?_
    rintro _ _ rfl
    refine (quiet_performOn op binding).quiet_bind fun outcome => (tells_report op outcome).imp ?_
    rintro result _ ⟨rfl, rfl⟩
    rfl

/-- An initialization is told of if it ends in an error. -/
theorem tells_init : ledger.Tells a.init fun result sensors =>
    sensors = errorSensors result.1 := by
  have hrefuse : ∀ cause : Misconfiguration, ledger.Tells
      (refuse cause >>= fun refused => pure (refused, a) : RegistryM (Except Failure Unit × _))
      fun result sensors => sensors = errorSensors result.1 := by
    intro cause
    refine (tells_counted _).bind ?_
    rintro _ _ ⟨rfl, rfl⟩
    exact Ledger.tells_pure rfl
  unfold init
  split
  · exact hrefuse _
  · refine Ledger.tells_get_bind fun r _ => ?_
    cases a.configuredFormat? r.properties with
    | error cause => exact hrefuse cause
    | ok format =>
      refine (quiet_onHandle a.handle SharedHandle.tallies_acquire).quiet_bind fun acquired => ?_
      refine (tells_counted acquired).bind ?_
      rintro acquired _ ⟨rfl, rfl⟩
      cases acquired with
      | error failure =>
        refine Ledger.tells_pure ?_
        rcases failure with _ | _ | _ <;> rfl
      | ok engine =>
        exact (quiet_log _ _).quiet_bind fun _ => (quiet_click rfl).quiet_bind fun _ =>
          Ledger.tells_pure rfl

/-- A cleanup is told of if it ends in an error. -/
theorem tells_cleanup : ledger.Tells a.cleanup fun result sensors =>
    sensors = errorSensors result.1 := by
  unfold cleanup
  split
  · refine (tells_counted _).bind ?_
    rintro _ _ ⟨rfl, rfl⟩
    exact Ledger.tells_pure rfl
  · refine (quiet_click rfl).quiet_bind fun _ => ?_
    refine (quiet_onHandle a.handle SharedHandle.tallies_release).quiet_bind fun released => ?_
    refine (tells_counted released).bind ?_
    rintro _ _ ⟨rfl, rfl⟩
    exact Ledger.tells_pure (List.append_nil _)

end EngineAdapter

namespace Adapter

/-- The adapter is one for an engine, and what it tells of is the error it ended in. -/
def TellsOfErrors (result : Except Failure Unit × Adapter) (sensors : List Sensor) : Prop :=
  (∃ a, result.2 = .engine a) ∧ sensors = errorSensors result.1

theorem tells_init (a : EngineAdapter) :
    Registry.ledger.Tells (init (.engine a)) TellsOfErrors := by
  refine a.tells_init.bind ?_
  rintro ⟨result, after⟩ _ rfl
  exact Ledger.tells_pure ⟨⟨after, rfl⟩, List.append_nil _⟩

theorem tells_cleanup (a : EngineAdapter) :
    Registry.ledger.Tells (cleanup (.engine a)) TellsOfErrors := by
  refine a.tells_cleanup.bind ?_
  rintro ⟨result, after⟩ _ rfl
  exact Ledger.tells_pure ⟨⟨after, rfl⟩, List.append_nil _⟩

end Adapter

/-! ## Measured operations -/

theorem Program.traces_forM_click {ι : Interface} {sensors : List Sensor} {events : List Event}
    {log : List (Answered ι)} {value : PUnit}
    (h : (sensors.forM Program.click).Traces events log value) :
    events = sensors.map .click ∧ log = [] := by
  induction sensors generalizing events log with
  | nil =>
    obtain ⟨rfl, rfl, -⟩ := h
    exact ⟨rfl, rfl⟩
  | cons sensor sensors ih =>
    obtain ⟨later, rfl, hrest⟩ := h
    obtain ⟨rfl, rfl⟩ := ih hrest
    exact ⟨rfl, rfl⟩

/-- What a measurement tells of is the operation that it was asked to perform. -/
theorem Measured.traces_perform {op : Operation} {events : List Event}
    {log : List (Answered storeCalls)} {outcome : Except Failure op.Result}
    (h : (Measured.perform op).Traces events log outcome) :
    tally events = Measured.sensors op outcome ∧ log = [⟨op, outcome⟩] := by
  obtain ⟨answer, later, rfl, hrest⟩ := h
  have hreport : ((sensors op answer).forM Program.click >>= fun _ => pure answer).Traces events
      later outcome := hrest
  obtain ⟨_, events₁, events₂, log₁, log₂, rfl, rfl, hclicks, rfl, rfl, rfl⟩ :=
    Program.traces_bind.1 hreport
  obtain ⟨rfl, rfl⟩ := Program.traces_forM_click hclicks
  refine ⟨?_, rfl⟩
  rcases outcome with (_ | _ | _) | value
  · rfl
  · rfl
  · rfl
  · by_cases hdone : op.succeeded value = true <;> simp [sensors, Operation.done, hdone, tally,
      Event.tally, Sensor.isTally]

/-! ## Tasks -/

/-- The sensors that an issued operation moves: those of its measurement and of the adapter. -/
def issuedSensors (op : Operation) (outcome : Except Failure op.Result) : List Sensor :=
  Measured.sensors op outcome ++ .adapterOperation op.kind :: errorSensors outcome

/-- The sensors that a call of a workload moves. -/
def WorkloadCall.sensors : Answered workloadCalls → List Sensor
  | ⟨.takeNumber, _⟩ => []
  | ⟨.perform op, outcome⟩ => issuedSensors op outcome

/-- The sensors that a task moves which issued an operation of a kind. -/
def taskSensors (kind : OperationKind) (outcome : Except Failure Bool) : List Sensor :=
  [.workloadOperation kind, .latency kind, match outcome with
    | .ok true => .measuredOk kind
    | _ => .measuredFailed kind, .adapterOperation kind] ++ errorSensors outcome

namespace Workload

variable {w : Workload} {task : Task}

/-- Planning and what it led to are those of one task. -/
theorem taskSensors_success {issued : Issued} (h : hasAnswer issued.success = true) :
    .workloadOperation issued.op.kind :: issuedSensors issued.op issued.outcome =
      taskSensors issued.op.kind issued.success := by
  obtain ⟨op, outcome⟩ := issued
  rcases outcome with (error | _ | _) | value
  · rfl
  · cases h
  · cases h
  · by_cases hdone : op.succeeded value = true
    · simp [issuedSensors, Measured.sensors, Operation.done, hdone, taskSensors, Issued.success,
        Except.map, errorSensors]
    · simp [issuedSensors, Measured.sensors, Operation.done, hdone, taskSensors, Issued.success,
        Except.map, errorSensors]

/-- A call that is planned still has not issued anything. -/
theorem takesNumber_of_planning [Machine] {number number' : Option UInt64}
    {log : List (Answered workloadCalls)}
    (h : (w.calls task).after (.planning number) log = .planning number') :
    ∀ x ∈ log, x.request = .takeNumber := by
  have hissued : ∀ (issued : Issued) (log : List (Answered workloadCalls)),
      (w.calls task).after (.issued issued) log = .issued issued := by
    intro issued log
    induction log with
    | nil => rfl
    | cons x log ih => exact ih
  induction log generalizing number with
  | nil => exact List.forall_mem_nil _
  | cons x log ih =>
    obtain ⟨call, answer⟩ := x
    cases call with
    | takeNumber => exact List.forall_mem_cons.2 ⟨rfl, ih h⟩
    | perform op => cases (hissued ⟨op, answer⟩ log).symm.trans h

/-- A plan of a kind comes to an operation of this kind, or there is no answer. -/
theorem traces_planOf [Machine] {kind : OperationKind} {worker next : Worker} {events : List Event}
    {log : List (Answered workloadCalls)} {planned : Except Failure Operation}
    (h : ((w.planOf kind).run.run worker).Traces events log (planned, next)) :
    tally events = [.workloadOperation kind] ∧ log.flatMap WorkloadCall.sensors = [] ∧
      match planned with
      | .ok op => op.kind = kind
      | .error failure => failure.isAnswer = false := by
  refine ⟨w.tallies_planOf kind worker _ _ _ h, ?_⟩
  have hplan : (w.planOf kind).Follows (fun _ => True) (w.requests (fun _ => True) .insert)
      (w.WriteFails kind) _ (.planning none) := follows_planOf kind
  obtain ⟨-, hends⟩ := (follows_calls (hplan.program worker
    Skew.BytePool.allBytes_true)).ends_of_traces (fun _ _ _ => trivial) h
  have hquiet : ∀ number', (w.calls .insert).after (.planning none) log = .planning number' →
      log.flatMap WorkloadCall.sensors = [] := by
    intro number' hafter
    refine List.flatMap_eq_nil_iff.2 fun x hx => ?_
    obtain ⟨call, answer⟩ := x
    obtain rfl : call = .takeNumber := takesNumber_of_planning hafter _ hx
    rfl
  cases planned with
  | ok op =>
    obtain ⟨⟨number, hafter, hkind, -⟩, -⟩ := hends
    exact ⟨hquiet number hafter, hkind⟩
  | error failure =>
    cases hafter : (w.calls .insert).after (.planning none) log with
    | issued issued =>
      rw [hafter] at hends
      exact hends.2.elim
    | planning number =>
      rw [hafter] at hends
      refine ⟨hquiet number hafter, ?_⟩
      obtain ⟨-, -, hfails⟩ := hends
      rcases reserve_eq_error_iff.1 hfails with ⟨rfl, -⟩ | ⟨rfl, -⟩ <;> rfl

/-- A task that comes to an answer tells of one operation. -/
theorem traces_run_sensors [Machine] {worker next : Worker} {events : List Event}
    {log : List (Answered workloadCalls)} {outcome : Except Failure Bool}
    (h : (w.run task worker).Traces events log (outcome, next))
    (hanswer : hasAnswer outcome = true) :
    ∃ kind, tally events ++ log.flatMap WorkloadCall.sensors = taskSensors kind outcome := by
  obtain ⟨⟨issued, drawn⟩, events₁, events₂, log₁, log₂, rfl, rfl, hissue, rfl, rfl, hreturn⟩ :=
    Program.traces_bind.1 h
  obtain ⟨⟨planned, drawn'⟩, events₃, events₄, log₃, log₄, rfl, rfl, hplan, hcall⟩ :=
    Program.traces_bind.1 hissue
  obtain ⟨kind, start, hstart⟩ := w.exists_planOf task worker
  have hplanOf : ((w.planOf kind).run.run start).Traces events₃ log₃ (planned, drawn') :=
    hstart ▸ hplan
  obtain ⟨htally, hquiet, hplanned⟩ := traces_planOf hplanOf
  cases planned with
  | error failure =>
    obtain ⟨rfl, rfl, hissued⟩ := hcall
    cases hissued
    cases hreturn
    rw [show hasAnswer (Except.bind (.error failure) Issued.success) = failure.isAnswer from rfl,
      hplanned] at hanswer
    cases hanswer
  | ok op =>
    obtain ⟨result, _, rfl, rfl, rfl, hissued⟩ := hcall
    cases hissued
    cases hreturn
    obtain rfl : op.kind = kind := hplanned
    have hsuccess : hasAnswer (Issued.success ⟨op, result⟩) = true := hanswer
    refine ⟨op.kind, Eq.trans ?_ (taskSensors_success hsuccess)⟩
    simp only [List.append_nil, htally, List.flatMap_append, hquiet, List.flatMap_singleton]
    rfl

end Workload

/-! ## Sessions -/

namespace Session

/-- The journal of a session whose engines merge rows and whose adapter is one for an engine. -/
def ledger : Ledger Session where
  keeps s := s.registry.MergesRows ∧ ∃ a, s.adapter = .engine a
  journal s := s.registry.journal

theorem tells_inRegistry {step : RegistryM α} {told : α → List Sensor → Prop}
    (h : Registry.ledger.Tells step told) : ledger.Tells (inRegistry step) told := by
  rintro s ⟨hrows, hadapter⟩
  obtain ⟨hrows', sensors, htold, hgrew⟩ := h s.registry hrows
  exact ⟨⟨hrows', hadapter⟩, sensors, htold, hgrew⟩

theorem tells_record (event : Event) :
    ledger.Tells (record event) fun _ sensors => sensors = event.tally :=
  tells_inRegistry (Registry.tells_record event)

theorem tells_perform [Machine] (op : Operation) : ledger.Tells (perform op) fun outcome sensors =>
    sensors = .adapterOperation op.kind :: errorSensors outcome := by
  unfold perform
  refine Ledger.tells_get_bind fun s hs => ?_
  obtain ⟨-, a, ha⟩ := hs
  rw [ha]
  exact tells_inRegistry (a.tells_perform op)

/-- Measurement and adapter tell of the same operation. -/
theorem tells_performMeasured [Machine] (op : Operation) : ledger.Tells (performMeasured op)
    fun outcome sensors => sensors = issuedSensors op outcome := by
  refine (Program.interpret_tells_flatMap tells_record
    (fun x : Answered storeCalls => .adapterOperation x.request.kind :: errorSensors x.answer)
    tells_perform (Measured.perform op)).imp ?_
  rintro outcome _ ⟨events, log, htraces, rfl⟩
  obtain ⟨htally, rfl⟩ := Measured.traces_perform htraces
  rw [htally, List.flatMap_singleton]
  rfl

/-- A task that comes to an answer tells of one operation. -/
theorem tells_task [Machine] (w : Workload) (task : Task) (worker : Worker) :
    ledger.Tells (answerClient w (.perform task worker)) fun answer sensors =>
      hasAnswer answer.1 = true → ∃ kind, sensors = taskSensors kind answer.1 := by
  have hcalls : ∀ call, ledger.Tells (answerWorkload performMeasured call) fun answer sensors =>
      sensors = WorkloadCall.sensors ⟨call, answer⟩ := by
    intro call
    cases call with
    | takeNumber => exact Ledger.quiet_of_journal_eq fun s hs => ⟨hs, rfl⟩
    | perform op => exact tells_performMeasured op
  refine (Program.interpret_tells_flatMap tells_record _ hcalls (w.run task worker)).imp ?_
  rintro ⟨outcome, next⟩ _ ⟨events, log, htraces, rfl⟩ hanswer
  exact Workload.traces_run_sensors htraces hanswer

/-- Taking the adapter through a step of its life tells of an error of that step. -/
theorem tells_transition {step : Adapter → RegistryM (Except Failure Unit × Adapter)}
    (h : ∀ a, Registry.ledger.Tells (step (.engine a)) Adapter.TellsOfErrors) :
    ledger.Tells (transition step) fun result sensors => sensors = errorSensors result := by
  unfold transition
  refine Ledger.tells_get_bind fun s hs => ?_
  obtain ⟨-, a, ha⟩ := hs
  rw [ha]
  refine (tells_inRegistry (h a)).bind ?_
  rintro ⟨result, adapter⟩ _ ⟨⟨a', rfl⟩, rfl⟩
  have hmodify : ledger.Quiet (modify fun s => { s with adapter := .engine a' } : SessionM Unit) :=
    Ledger.quiet_of_journal_eq fun s hs => ⟨⟨hs.1, a', rfl⟩, rfl⟩
  exact hmodify.quiet_bind fun _ => Ledger.tells_pure (List.append_nil _)

theorem quiet_takeToken : ledger.Quiet takeToken := by
  unfold takeToken
  refine Ledger.tells_get_bind fun s hs => ?_
  cases s.limiter with
  | none => exact Ledger.tells_pure rfl
  | some limiter =>
    have hconsume : (limiter.consume : Program .silent RateLimiter).Tallies [] := by
      unfold RateLimiter.consume
      split
      · exact Program.tallies_done _
      · exact (Program.tallies_click_of_not_isTally rfl).bind fun _ => Program.tallies_done _
    refine (tells_inRegistry (Registry.tells_runSilent hconsume)).bind ?_
    rintro consumed _ ⟨-, rfl⟩
    exact Ledger.quiet_of_journal_eq fun s hs => ⟨hs, rfl⟩

/-- What the answer to a call of a client tells of. -/
def AnswerTells : Answered clientCalls → List Sensor → Prop
  | ⟨.perform _ _, (outcome, _)⟩, sensors =>
    hasAnswer outcome = true → ∃ kind, sensors = taskSensors kind outcome
  | ⟨.initAdapter, answer⟩, sensors => sensors = errorSensors answer
  | ⟨.cleanAdapter, answer⟩, sensors => sensors = errorSensors answer
  | _, sensors => sensors = []

theorem tells_answerClient [Machine] (w : Workload) (call : ClientCall) :
    ledger.Tells (answerClient w call) fun answer => AnswerTells ⟨call, answer⟩ := by
  cases call with
  | initAdapter => exact tells_transition Adapter.tells_init
  | perform task worker => exact tells_task w task worker
  | poll flag => exact Ledger.tells_get_bind fun s _ => Ledger.tells_pure rfl
  | takeToken => exact quiet_takeToken
  | cleanAdapter => exact tells_transition Adapter.tells_cleanup
  | countDown => exact Ledger.quiet_of_journal_eq fun s hs => ⟨hs, rfl⟩

end Session

end StoreBench
