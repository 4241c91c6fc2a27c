import StoreBench.Proofs.Tallies
import StoreBench.Proofs.WellConfigured
/-!
# How the numbers of a client add up

The client counts an operation after the task that issued it has ended; the other layers have
counted it by then. So the numbers of a client that ends without an error agree, and those of a
client that a task has ended with an error differ by this one operation. The numbers of single tasks
are added up along the calls of a run, whatever others do in between.
-/

namespace StoreBench

namespace OperationKind

/-- The sum over all kinds of operation. -/
def total (f : OperationKind → Int) : Int := all.foldr (fun kind sum => f kind + sum) 0

theorem total_add (f g : OperationKind → Int) :
    total (fun kind => f kind + g kind) = total f + total g := by
  simp only [total, all, List.foldr_cons, List.foldr_nil]
  omega

end OperationKind

namespace Client

open OperationKind (total total_add)

/-! ## Adding up -/

/-- The numbers of the layers agree, apart from operations that have ended in an error: they are in
all numbers but those of the client. -/
structure Balanced (grown : Sensor → Int) (failed : Int) : Prop where
  measured : ∀ kind, grown (.workloadOperation kind) =
    grown (.measuredOk kind) + grown (.measuredFailed kind)
  latencies : ∀ kind, grown (.workloadOperation kind) = grown (.latency kind)
  adapter : ∀ kind, grown (.workloadOperation kind) = grown (.adapterOperation kind)
  operations : total (fun kind => grown (.workloadOperation kind)) = grown .clientOperation + failed
  failures : total (fun kind => grown (.measuredFailed kind)) = grown .clientNotOk + failed
  errors : grown .adapterError = failed

/-- The sensors are those that tasks of some outcomes move, where each task has issued one
operation. -/
structure Tallied (outs : List (Except Failure Bool)) (sensors : List Sensor) : Prop where
  measured : ∀ kind, sensors.count (.workloadOperation kind) =
    sensors.count (.measuredOk kind) + sensors.count (.measuredFailed kind)
  latencies : ∀ kind, sensors.count (.workloadOperation kind) = sensors.count (.latency kind)
  adapter : ∀ kind,
    sensors.count (.workloadOperation kind) = sensors.count (.adapterOperation kind)
  operations : total (fun kind => (sensors.count (.workloadOperation kind) : Nat)) =
    (outs.countP Except.isOk + outs.countP (!·.isOk) : Nat)
  failures : total (fun kind => (sensors.count (.measuredFailed kind) : Nat)) =
    (outs.countP notOk + outs.countP (!·.isOk) : Nat)
  errors : sensors.count .adapterError = outs.countP (!·.isOk)
  clientOperation : sensors.count .clientOperation = 0
  clientNotOk : sensors.count .clientNotOk = 0

theorem tallied_nil : Tallied [] [] := by
  constructor <;> first | rfl | exact fun _ => rfl

theorem Tallied.append {outs outs' : List (Except Failure Bool)} {sensors sensors' : List Sensor}
    (h : Tallied outs sensors) (h' : Tallied outs' sensors') :
    Tallied (outs ++ outs') (sensors ++ sensors') where
  measured kind := by
    simp only [List.count_append, h.measured kind, h'.measured kind]
    omega
  latencies kind := by simp only [List.count_append, h.latencies kind, h'.latencies kind]
  adapter kind := by simp only [List.count_append, h.adapter kind, h'.adapter kind]
  operations := by
    simp only [List.count_append, Int.natCast_add, total_add, h.operations, h'.operations,
      List.countP_append]
    omega
  failures := by
    simp only [List.count_append, Int.natCast_add, total_add, h.failures, h'.failures,
      List.countP_append]
    omega
  errors := by rw [List.count_append, List.countP_append, h.errors, h'.errors]
  clientOperation := by rw [List.count_append, h.clientOperation, h'.clientOperation]
  clientNotOk := by rw [List.count_append, h.clientNotOk, h'.clientNotOk]

theorem tallied_taskSensors (kind : OperationKind) {outcome : Except Failure Bool}
    (h : hasAnswer outcome = true) : Tallied [outcome] (taskSensors kind outcome) where
  measured other := by
    rcases outcome with (_ | _ | _) | (_ | _) <;> simp [taskSensors, errorSensors, List.count_cons]
  latencies other := by
    rcases outcome with (_ | _ | _) | (_ | _) <;> simp [taskSensors, errorSensors, List.count_cons]
  adapter other := by
    rcases outcome with (_ | _ | _) | (_ | _) <;> simp [taskSensors, errorSensors, List.count_cons]
  operations := by
    rcases outcome with (_ | _ | _) | (_ | _) <;> cases kind <;> rfl
  failures := by
    rcases outcome with (_ | _ | _) | (_ | _) <;> cases kind <;> rfl
  errors := by
    rcases outcome with (_ | _ | _) | (_ | _) <;> first | rfl | cases h
  clientOperation := by
    rcases outcome with (_ | _ | _) | (_ | _) <;> rfl
  clientNotOk := by
    rcases outcome with (_ | _ | _) | (_ | _) <;> rfl

/-- The failure that a call was answered with, if it was. -/
def failure? : Answered clientCalls → Option Failure
  | ⟨.initAdapter, .error failure⟩ => some failure
  | ⟨.cleanAdapter, .error failure⟩ => some failure
  | ⟨.perform _ _, (.error failure, _)⟩ => some failure
  | _ => none

/-- The error that a task was answered with, if it was. -/
def taskError? : Answered clientCalls → Option Error
  | ⟨.perform _ _, (.error (.raised e), _)⟩ => some e
  | _ => none

theorem exists_of_taskError? {x : Answered clientCalls} {e : Error} (h : taskError? x = some e) :
    ∃ task worker next, x = ⟨.perform task worker, (.error (.raised e), next)⟩ := by
  unfold taskError? at h
  split at h
  · cases h
    exact ⟨_, _, _, rfl⟩
  · cases h

theorem failure?_of_taskError? {x : Answered clientCalls} {e : Error} (h : taskError? x = some e) :
    failure? x = some (.raised e) := by
  obtain ⟨task, worker, next, rfl⟩ := exists_of_taskError? h
  rfl

theorem tallied_answer {x : Answered clientCalls} {sensors : List Sensor}
    (h : Session.AnswerTells x sensors)
    (hx : failure? x = none ∨ ∃ e, taskError? x = some e) :
    Tallied (outcomes [x]) sensors := by
  rcases hx with hx | ⟨e, hx⟩
  · obtain ⟨call, answer⟩ := x
    cases call with
    | perform task worker =>
      obtain ⟨failure | ok, next⟩ := answer
      · cases hx
      · obtain ⟨kind, rfl⟩ := h rfl
        exact tallied_taskSensors kind rfl
    | initAdapter =>
      obtain rfl : sensors = _ := h
      cases answer with
      | error failure => cases hx
      | ok => exact tallied_nil
    | cleanAdapter =>
      obtain rfl : sensors = _ := h
      cases answer with
      | error failure => cases hx
      | ok => exact tallied_nil
    | _ =>
      obtain rfl : sensors = [] := h
      exact tallied_nil
  · obtain ⟨task, worker, next, rfl⟩ := exists_of_taskError? hx
    obtain ⟨kind, rfl⟩ := h rfl
    exact tallied_taskSensors kind rfl

/-- Calls of which none failed but tasks in errors tell of one operation for each task. -/
theorem tallied_answers {log : List (Answered clientCalls)} {told : List (List Sensor)}
    (h : List.Forall₂ Session.AnswerTells log told)
    (hlog : ∀ x ∈ log, failure? x = none ∨ ∃ e, taskError? x = some e) :
    Tallied (outcomes log) told.flatten := by
  induction h with
  | nil => exact tallied_nil
  | @cons x sensors log told hx _ ih =>
    obtain ⟨hfirst, hrest⟩ := List.forall_mem_cons.1 hlog
    have hall := (tallied_answer hx hfirst).append (ih hrest)
    rw [← outcomes_append] at hall
    exact hall

/-! ## Calls that fail -/

section Failing

variable {c : Client} {log : List (Answered clientCalls)} {result : Except Failure Nat}

/-- Whether a call was answered without failure. -/
def Succeeds (x : Answered clientCalls) : Prop := failure? x = none

theorem succeeds_look (raised : Bool) : ∀ x ∈ c.look raised, Succeeds x := by
  unfold look
  split <;> simp [Succeeds, failure?]

theorem succeeds_token : ∀ x ∈ c.token, Succeeds x := by
  unfold token
  split <;> simp [Succeeds, failure?]

theorem succeeds_opening : ∀ x ∈ c.opening, Succeeds x := by
  unfold opening
  split <;> simp [Succeeds, failure?]

theorem succeeds_closing : ∀ x ∈ c.closing, Succeeds x := by
  unfold closing
  split <;> simp [Succeeds, failure?]

theorem succeeds_rounds (worker : Worker) (results : List (Bool × Worker)) :
    ∀ x ∈ c.rounds worker results, Succeeds x := by
  induction results generalizing worker with
  | nil => exact List.forall_mem_nil _
  | cons first results ih =>
    simp only [rounds, attempt, List.forall_mem_append, List.forall_mem_singleton]
    exact ⟨⟨⟨succeeds_look false, succeeds_token⟩, rfl⟩, ih first.2⟩

theorem Ending.succeeds {tasks performed : Nat} {worker : Worker}
    (h : c.Ending tasks performed worker log (.ok ())) : ∀ x ∈ log, Succeeds x := by
  cases h with
  | all => exact List.forall_mem_nil _
  | flagged => exact List.forall_mem_singleton.2 rfl

/-- A client that ends well had no call that failed. -/
theorem Calls.succeeds [Machine] {count : Nat} (h : c.Calls log (.ok count)) :
    ∀ x ∈ log, Succeeds x := by
  cases h with
  | @finished worker results _ _ hending =>
    simp only [List.forall_mem_append]
    exact ⟨⟨⟨succeeds_opening, succeeds_rounds worker results⟩, hending.succeeds⟩,
      succeeds_closing⟩

/-- The first call that fails is the last one. -/
theorem Calls.fails_last [Machine] {failure : Failure} (h : c.Calls log (.error failure))
    (hlog : log ≠ []) :
    ∃ before x, log = before ++ [x] ∧ (∀ y ∈ before, Succeeds y) ∧ failure? x = some failure := by
  cases h with
  | noWorker => exact absurd rfl hlog
  | initFailed => exact ⟨[], _, rfl, List.forall_mem_nil _, rfl⟩
  | @taskFailed worker results _ _ _ hending =>
    cases hending with
    | @failed _ next =>
      refine ⟨c.opening ++ c.rounds worker results ++ (c.look false ++ c.token),
        ⟨.perform c.mode.task (workerAfter worker results), (.error failure, next)⟩, ?_, ?_, rfl⟩
      · rw [attempt]
        simp only [List.append_assoc]
      · simp only [List.forall_mem_append]
        exact ⟨⟨succeeds_opening, succeeds_rounds worker results⟩, succeeds_look false,
          succeeds_token⟩
  | @cleanFailed worker results _ _ _ hending =>
    refine ⟨_, ⟨.cleanAdapter, .error failure⟩, rfl, ?_, rfl⟩
    simp only [List.forall_mem_append]
    exact ⟨⟨succeeds_opening, succeeds_rounds worker results⟩, hending.succeeds⟩

/-- If a task was answered with an error, this was the last call, and its error is the one
returned. -/
theorem Calls.raised_last [Machine] (h : c.Calls log result) {e : Error} {x : Answered clientCalls}
    (hx : x ∈ log) (hraised : taskError? x = some e) :
    result = .error (.raised e) ∧ ∃ before, log = before ++ [x] ∧ ∀ y ∈ before, Succeeds y := by
  cases result with
  | ok count => cases (h.succeeds x hx).symm.trans (failure?_of_taskError? hraised)
  | error failure =>
    obtain ⟨before, last, rfl, hbefore, hlast⟩ := h.fails_last (List.ne_nil_of_mem hx)
    rcases List.mem_append.1 hx with hmem | hmem
    · cases (hbefore x hmem).symm.trans (failure?_of_taskError? hraised)
    · obtain rfl : x = last := List.mem_singleton.1 hmem
      cases hlast.symm.trans (failure?_of_taskError? hraised)
      exact ⟨rfl, before, rfl, hbefore⟩

theorem isOk_of_succeeds (h : ∀ x ∈ log, Succeeds x) :
    ∀ outcome ∈ outcomes log, outcome.isOk = true := by
  intro outcome houtcome
  obtain ⟨⟨call, answer⟩, hx, hanswer⟩ := List.mem_filterMap.1 houtcome
  cases call with
  | perform task worker =>
    obtain ⟨failure | ok, next⟩ := answer
    · cases h _ hx
    · cases hanswer
      rfl
  | _ => cases hanswer

theorem countP_failed_of_succeeds (h : ∀ x ∈ log, Succeeds x) :
    (outcomes log).countP (!·.isOk) = 0 := by
  refine List.countP_eq_zero.2 fun outcome houtcome => ?_
  simp [isOk_of_succeeds h outcome houtcome]

theorem succeeds_farewell (result : Except Failure Nat) : ∀ x ∈ farewell result, Succeeds x := by
  unfold farewell
  split <;> simp [Succeeds, failure?]

end Failing

/-! ## A client among others -/

/-- What others do between the calls of a client, which may depend on what the client was answered
so far. They leave its adapter alone, and what they report is not counted. -/
structure Surroundings where
  act : List (Answered clientCalls) → Session → Session
  adapter_act : ∀ log s, (act log s).adapter = s.adapter
  journal_act : ∀ log s, (act log s).registry.journal = s.registry.journal
  mergesRows_act : ∀ log s, s.registry.MergesRows → (act log s).registry.MergesRows

/-- Nobody else does anything. -/
def Surroundings.still : Surroundings where
  act _ s := s
  adapter_act _ _ := rfl
  journal_act _ _ := rfl
  mergesRows_act _ _ h := h

/-- A client's run in a session in which others act between its calls, with what it was answered. -/
def runAmong [Machine] (c : Client) (w : Workload) (around : Surroundings) :
    StateM (Session × List (Answered clientCalls)) (Except Failure Nat) :=
  c.run.interpret (Program.recorded Session.record) (Program.logged fun log call => do
    modify (around.act log)
    Session.answerClient w call)

/-- How far a count has grown between two sessions. -/
def growth (before after : Session) (sensor : Sensor) : Int :=
  (Event.clicks sensor after.registry.journal : Int) - Event.clicks sensor before.registry.journal

variable {c : Client} {w : Workload}

theorem balanced_of_grew {events : List Event} {log : List (Answered clientCalls)}
    {told : List Sensor} {before after : Session} (hreports : Reports events log)
    (htold : Tallied (outcomes log) told)
    (hgrew : Grew (tally events ++ told) before.registry.journal after.registry.journal) :
    Balanced (growth before after) ((outcomes log).countP (!·.isOk)) ∧
      growth before after .clientOperation = (outcomes log).countP Except.isOk := by
  have hgrowth : ∀ sensor : Sensor, sensor.isTally = true →
      growth before after sensor = (Event.clicks sensor events + told.count sensor : Nat) := by
    intro sensor hsensor
    rw [growth, hgrew.clicks_eq hsensor, List.count_append, ← clicks_eq_count_tally hsensor events]
    omega
  have hlayers : ∀ sensor : Sensor, sensor.isTally = true → sensor ∉ Sensor.ofClients →
      growth before after sensor = (told.count sensor : Nat) := by
    intro sensor hsensor hothers
    rw [hgrowth sensor hsensor, hreports.others sensor hothers, Nat.zero_add]
  have hworkload := fun kind => hlayers (.workloadOperation kind) rfl (by simp [Sensor.ofClients])
  have hadapter := fun kind => hlayers (.adapterOperation kind) rfl (by simp [Sensor.ofClients])
  have hlatency := fun kind => hlayers (.latency kind) rfl (by simp [Sensor.ofClients])
  have hmeasuredOk := fun kind => hlayers (.measuredOk kind) rfl (by simp [Sensor.ofClients])
  have hmeasuredFailed := fun kind =>
    hlayers (.measuredFailed kind) rfl (by simp [Sensor.ofClients])
  have herrors := hlayers .adapterError rfl (by simp [Sensor.ofClients])
  have hoperations := hgrowth .clientOperation rfl
  have hnotOk := hgrowth .clientNotOk rfl
  rw [hreports.operations, htold.clientOperation] at hoperations
  rw [hreports.notOk, htold.clientNotOk] at hnotOk
  refine ⟨⟨fun kind => ?_, fun kind => ?_, fun kind => ?_, ?_, ?_, ?_⟩, hoperations⟩
  · rw [hworkload, hmeasuredOk, hmeasuredFailed, htold.measured kind]
    omega
  · rw [hworkload, hlatency, htold.latencies kind]
  · rw [hworkload, hadapter, htold.adapter kind]
  · simp only [hworkload]
    rw [htold.operations, hoperations]
    omega
  · simp only [hmeasuredFailed]
    rw [htold.failures, hnotOk]
    omega
  · rw [herrors, htold.errors]

/-- The numbers of a client's run agree in all layers, whatever its operations are and come to,
whatever others do between its calls, and wherever it ends. If it ends without an error, the client
has counted as many operations as it returns. If a task was answered with an error, the client
returns this error, and the operation of this task is the only one that it has not counted. -/
theorem numbers_add_up [Machine] (c : Client) (w : Workload) (around : Surroundings)
    {before : Session} (hrows : before.registry.MergesRows) {a : EngineAdapter}
    (hadapter : before.adapter = .engine a) :
    let run := (c.runAmong w around).run (before, [])
    let grown := growth before run.2.1
    (∀ count, run.1 = .ok count → grown .clientOperation = count ∧ Balanced grown 0) ∧
    ∀ x ∈ run.2.2, ∀ e, taskError? x = some e →
      run.1 = .error (.raised e) ∧ Balanced grown 1 := by
  intro run grown
  have hanswer : ∀ log call, Session.ledger.Tells
      (modify (around.act log) >>= fun _ => Session.answerClient w call)
      fun answer => Session.AnswerTells ⟨call, answer⟩ := by
    intro log call
    have hothers : Session.ledger.Quiet (modify (around.act log)) := by
      refine Ledger.quiet_of_journal_eq fun s hs => ⟨⟨around.mergesRows_act log s hs.1, ?_⟩,
        around.journal_act log s⟩
      obtain ⟨a, ha⟩ := hs.2
      exact ⟨a, (around.adapter_act log s).trans ha⟩
    exact hothers.quiet_bind fun _ => Session.tells_answerClient w call
  obtain ⟨-, events, log, told, hlog, htraces, htold, hgrew⟩ :=
    Program.interpret_logged_tells Session.AnswerTells Session.tells_record hanswer c.run
      ⟨hrows, a, hadapter⟩ []
  obtain ⟨calls, rfl, hsession⟩ : ∃ calls, log = calls ++ farewell run.1 ∧
      c.session.run.Traces events calls run.1 := traces_run htraces
  obtain ⟨hcalls, hreports⟩ := traces_session hsession
  have hbalanced : (∀ x ∈ calls, failure? x = none ∨ ∃ e, taskError? x = some e) →
      Balanced (growth before run.2.1) ((outcomes calls).countP (!·.isOk)) ∧
        growth before run.2.1 .clientOperation = (outcomes calls).countP Except.isOk := by
    intro hanswered
    have htallied := tallied_answers htold (List.forall_mem_append.2
      ⟨hanswered, fun x hx => .inl (succeeds_farewell _ x hx)⟩)
    rw [outcomes_append, outcomes_farewell, List.append_nil] at htallied
    exact balanced_of_grew hreports htallied hgrew
  constructor
  · intro count hcount
    rw [hcount] at hcalls
    have hsucceeds := hcalls.succeeds
    obtain ⟨hnumbers, hcounted⟩ := hbalanced fun x hx => .inl (hsucceeds x hx)
    rw [List.countP_eq_length.2 (isOk_of_succeeds hsucceeds), hcalls.length_outcomes] at hcounted
    rw [countP_failed_of_succeeds hsucceeds] at hnumbers
    exact ⟨hcounted, hnumbers⟩
  · intro x hx e hraised
    have hmem : x ∈ calls := by
      have hx' : x ∈ calls ++ farewell run.1 := hlog ▸ hx
      rcases List.mem_append.1 hx' with hmem | hmem
      · exact hmem
      · cases (succeeds_farewell _ x hmem).symm.trans (failure?_of_taskError? hraised)
    obtain ⟨hresult, earlier, rfl, hsucceeds⟩ := hcalls.raised_last hmem hraised
    obtain ⟨hnumbers, -⟩ := hbalanced (List.forall_mem_append.2
      ⟨fun y hy => .inl (hsucceeds y hy), List.forall_mem_singleton.2 (.inr ⟨e, hraised⟩)⟩)
    obtain ⟨task, worker, next, rfl⟩ := exists_of_taskError? hraised
    rw [outcomes_append, List.countP_append, countP_failed_of_succeeds hsucceeds] at hnumbers
    exact ⟨hresult, hnumbers⟩

/-- A client about to use the engine in memory, which nobody has opened yet. -/
def newcomer : Session :=
  ⟨.standard (Benchmark.propertiesWith (Team.small 3) Team.inMemory), .start,
    .engine ⟨"memory", "memory", .keyValue, none⟩, ⟨1⟩, none, []⟩

section

attribute [local instance] Machine.largest

/-- What becomes of a client that loads two records, with or without initializing its adapter. -/
def loadTwo (w : Workload) (initializes : Bool) :
    Except Failure Nat × Session × List (Answered clientCalls) :=
  let c : Client := { mode := .load, ops := 2, initializes, valuePoolSize := 1 }
  (c.runAmong w .still).run (newcomer, [])

/-- Two records are loaded, or an operation comes before the adapter is initialized. -/
theorem numbers_add_up_loadTwo :
    ∃ w, (Workload.build (ι := .silent) (Team.small 3).workload).run.value = .ok w ∧
      (loadTwo w true).1 = .ok 2 ∧
      growth newcomer (loadTwo w true).2.1 .clientOperation = 2 ∧
      Balanced (growth newcomer (loadTwo w true).2.1) 0 ∧
      (∃ x ∈ (loadTwo w false).2.2, (taskError? x).isSome) ∧
      Balanced (growth newcomer (loadTwo w false).2.1) 1 := by
  have hruns : ((Workload.build (ι := .silent) (Team.small 3).workload).run.value.toOption.any
      fun w => (loadTwo w true).1.toOption == some 2 &&
        (loadTwo w false).2.2.any fun x => (taskError? x).isSome) = true := by decide +kernel
  obtain ⟨w, hbuild, hruns⟩ := exists_ok_of_any hruns
  rw [Bool.and_eq_true, List.any_eq_true] at hruns
  obtain ⟨hloaded, x, hx, hraised⟩ := hruns
  have hresult : (loadTwo w true).1 = .ok 2 := by
    cases hcase : (loadTwo w true).1 with
    | error failure =>
      rw [hcase] at hloaded
      cases hloaded
    | ok count =>
      rw [hcase] at hloaded
      exact congrArg _ (Option.some.inj (eq_of_beq hloaded))
  obtain ⟨e, he⟩ := Option.isSome_iff_exists.1 hraised
  have hrows : newcomer.registry.MergesRows := Registry.mergesRows_standard _
  obtain ⟨hcounted, hnumbers⟩ := (numbers_add_up _ w .still hrows rfl).1 2 hresult
  obtain ⟨-, hnumbers'⟩ := (numbers_add_up _ w .still hrows rfl).2 x hx e he
  exact ⟨w, hbuild, hresult, hcounted, hnumbers, ⟨x, hx, hraised⟩, hnumbers'⟩

end

end Client

end StoreBench
