import Mathlib.Data.Fintype.Card
import StoreBench.Client.Basic
import StoreBench.Client.Latch
import StoreBench.Proofs.Crew
import StoreBench.Proofs.Traces
/-!
# What clients call

Whatever a client is answered, its calls are those of its tasks in a frame: the adapter is
initialized first and cleaned up last, if the client is to do so, and before each task the client
looks at its flag and takes a token, if it has them. The first call that fails is the last one.
Every client that comes to an answer counts its latch down once, after all other calls, so the latch
of a crew of clients always says how many of them are still under way.
-/

namespace StoreBench

/-- Whether there is an answer all the same. After a fault there is none. -/
def Failure.isAnswer : Failure → Bool
  | .raised _ => true
  | .fault | .exhausted => false

/-- Whether there is an answer, be it an error. -/
def hasAnswer {α : Type} : Except Failure α → Bool
  | .ok _ => true
  | .error failure => failure.isAnswer

namespace Client

/-! ## The calls of a client -/

section Calls

variable (c : Client)

/-- What the client sees of the flag that it listens to, if it does to one. -/
def look (raised : Bool) : List (Answered clientCalls) :=
  match c.mode.flag? with
  | none => []
  | some flag => [⟨.poll flag, raised⟩]

/-- The token that a task takes. -/
def token : List (Answered clientCalls) := if c.paced then [⟨.takeToken, ()⟩] else []

/-- A task, with what comes before it. -/
def attempt (worker : Worker) (answer : Except Failure Bool × Worker) :
    List (Answered clientCalls) :=
  c.look false ++ c.token ++ [⟨.perform c.mode.task worker, answer⟩]

/-- Tasks that were performed, each with the worker that the one before it has left. -/
def rounds : Worker → List (Bool × Worker) → List (Answered clientCalls)
  | _, [] => []
  | worker, (ok, next) :: later => c.attempt worker (.ok ok, next) ++ rounds next later

/-- The worker that the last of some tasks has left. -/
def workerAfter : Worker → List (Bool × Worker) → Worker
  | worker, [] => worker
  | _, (_, next) :: later => workerAfter next later

/-- How the work of a client on so many tasks ends: all are performed, or the flag is raised before,
or a task fails. -/
inductive Ending (tasks performed : Nat) (worker : Worker) :
    List (Answered clientCalls) → Except Failure Unit → Prop
  | all : performed = tasks → Ending tasks performed worker [] (.ok ())
  | flagged {flag : Flag} : performed < tasks → c.mode.flag? = some flag →
      Ending tasks performed worker [⟨.poll flag, true⟩] (.ok ())
  | failed {failure : Failure} {next : Worker} : performed < tasks →
      Ending tasks performed worker (c.attempt worker (.error failure, next)) (.error failure)

def opening : List (Answered clientCalls) :=
  if c.initializes then [⟨.initAdapter, .ok ()⟩] else []

def closing : List (Answered clientCalls) :=
  if c.cleansUp then [⟨.cleanAdapter, .ok ()⟩] else []

/-- The calls of a client with what it comes to, its latch apart. -/
inductive Calls [Machine] : List (Answered clientCalls) → Except Failure Nat → Prop
  | noWorker {failure : Failure} : Worker.ofSeed? c.seed c.valuePoolSize = .error failure →
      Calls [] (.error failure)
  | initFailed {worker : Worker} {failure : Failure} :
      Worker.ofSeed? c.seed c.valuePoolSize = .ok worker → c.initializes = true →
      Calls [⟨.initAdapter, .error failure⟩] (.error failure)
  | taskFailed {worker : Worker} {results : List (Bool × Worker)} {failure : Failure}
      {ending : List (Answered clientCalls)} :
      Worker.ofSeed? c.seed c.valuePoolSize = .ok worker →
      c.Ending c.ops results.length (workerAfter worker results) ending (.error failure) →
      Calls (c.opening ++ c.rounds worker results ++ ending) (.error failure)
  | cleanFailed {worker : Worker} {results : List (Bool × Worker)} {failure : Failure}
      {ending : List (Answered clientCalls)} :
      Worker.ofSeed? c.seed c.valuePoolSize = .ok worker →
      c.Ending c.ops results.length (workerAfter worker results) ending (.ok ()) →
      c.cleansUp = true →
      Calls (c.opening ++ c.rounds worker results ++ ending ++ [⟨.cleanAdapter, .error failure⟩])
        (.error failure)
  | finished {worker : Worker} {results : List (Bool × Worker)}
      {ending : List (Answered clientCalls)} :
      Worker.ofSeed? c.seed c.valuePoolSize = .ok worker →
      c.Ending c.ops results.length (workerAfter worker results) ending (.ok ()) →
      Calls (c.opening ++ c.rounds worker results ++ ending ++ c.closing) (.ok results.length)

end Calls

/-! ## What a client reports -/

/-- The answer to a call that performs a task. -/
def outcome? : Answered clientCalls → Option (Except Failure Bool)
  | ⟨.perform _ _, (outcome, _)⟩ => some outcome
  | _ => none

/-- The answers to the tasks of a log. -/
def outcomes (log : List (Answered clientCalls)) : List (Except Failure Bool) :=
  log.filterMap outcome?

@[simp] theorem outcomes_append (log log' : List (Answered clientCalls)) :
    outcomes (log ++ log') = outcomes log ++ outcomes log' := List.filterMap_append

/-- Whether a task was performed without success. -/
def notOk : Except Failure Bool → Bool
  | .ok ok => !ok
  | .error _ => false

/-- The events tell of every task that did not fail, and of nothing but the client. -/
structure Reports (events : List Event) (log : List (Answered clientCalls)) : Prop where
  operations : Event.clicks .clientOperation events = (outcomes log).countP Except.isOk
  notOk : Event.clicks .clientNotOk events = (outcomes log).countP notOk
  others : ∀ sensor, sensor ∉ Sensor.ofClients → Event.clicks sensor events = 0

/-- Where nothing is reported no task was performed. -/
theorem Reports.nil {log : List (Answered clientCalls)} (h : outcomes log = []) :
    Reports [] log := by
  constructor <;> simp [h]

theorem Reports.append {events events' : List Event} {log log' : List (Answered clientCalls)}
    (h : Reports events log) (h' : Reports events' log') :
    Reports (events ++ events') (log ++ log') where
  operations := by simp [h.operations, h'.operations]
  notOk := by simp [h.notOk, h'.notOk]
  others sensor hsensor := by simp [h.others sensor hsensor, h'.others sensor hsensor]

/-- What is reported of a task. -/
def reportsOf : Except Failure Bool → List Event
  | .ok true => [.click .clientOperation]
  | .ok false => [.click .clientOperation, .click .clientNotOk]
  | .error _ => []

theorem reports_reportsOf (task : Task) (worker next : Worker) (outcome : Except Failure Bool) :
    Reports (reportsOf outcome) [⟨.perform task worker, (outcome, next)⟩] where
  operations := by rcases outcome with _ | (_ | _) <;> rfl
  notOk := by rcases outcome with _ | (_ | _) <;> rfl
  others sensor hsensor := by
    refine List.count_eq_zero.2 fun hmem => hsensor ?_
    rcases outcome with _ | (_ | _) <;> simp [reportsOf] at hmem
    · rcases hmem with rfl | rfl <;> decide
    · subst hmem
      decide

theorem reports_stoppedEarly {log : List (Answered clientCalls)} (h : outcomes log = []) :
    Reports [.click .stoppedEarly] log where
  operations := by rw [h]; rfl
  notOk := by rw [h]; rfl
  others sensor hsensor := by
    refine List.count_eq_zero.2 fun hmem => hsensor ?_
    obtain rfl : sensor = .stoppedEarly := by simpa using hmem
    decide

/-! ## Traces of a client -/

section Traces

variable {c : Client} {events : List Event} {log : List (Answered clientCalls)}

theorem outcomes_look (raised : Bool) : outcomes (c.look raised) = [] := by
  unfold look
  cases c.mode.flag? <;> rfl

theorem outcomes_token : outcomes c.token = [] := by
  unfold token
  split <;> rfl

theorem traces_ask {call : ClientCall} {result : Except Failure call.Answer} :
    (ask call).run.Traces events log result ↔
      ∃ answer, result = .ok answer ∧ events = [] ∧ log = [⟨call, answer⟩] := by
  constructor
  · rintro ⟨answer, _, rfl, rfl, rfl, rfl⟩
    exact ⟨answer, rfl, rfl, rfl⟩
  · rintro ⟨answer, rfl, rfl, rfl⟩
    exact ⟨answer, [], rfl, rfl, rfl, rfl⟩

theorem traces_shouldStop {result : Except Failure Bool}
    (h : c.shouldStop.run.Traces events log result) :
    ∃ raised, result = .ok raised ∧ events = [] ∧ log = c.look raised ∧
      (raised = true → ∃ flag, c.mode.flag? = some flag) := by
  unfold shouldStop at h
  cases hflag : c.mode.flag? with
  | none =>
    rw [hflag] at h
    obtain ⟨rfl, rfl, rfl⟩ := h
    exact ⟨false, rfl, rfl, by rw [look, hflag], nofun⟩
  | some flag =>
    rw [hflag] at h
    obtain ⟨raised, rfl, rfl, rfl⟩ := traces_ask.1 h
    exact ⟨raised, rfl, rfl, by rw [look, hflag], fun _ => ⟨flag, rfl⟩⟩

theorem traces_perform {task : Task} {worker : Worker} {result : Except Failure (Bool × Worker)}
    (h : (perform task worker).run.Traces events log result) :
    ∃ outcome next, events = [] ∧ log = [⟨.perform task worker, (outcome, next)⟩] ∧
      result = outcome.map (·, next) := by
  obtain ⟨answer, _, rfl, hrest⟩ := h
  obtain ⟨failure | ok, next⟩ := answer
  · obtain ⟨rfl, rfl, rfl⟩ := hrest
    exact ⟨.error failure, next, rfl, rfl, rfl⟩
  · obtain ⟨rfl, rfl, rfl⟩ := hrest
    exact ⟨.ok ok, next, rfl, rfl, rfl⟩

/-- The token before a task. -/
def takeToken (c : Client) : Attempt clientCalls Unit :=
  if c.paced then ask .takeToken else return ()

/-- A task, from its token to the worker it leaves. -/
def round (c : Client) (worker : Worker) : Attempt clientCalls Worker := do
  c.takeToken
  let (ok, worker) ← perform c.mode.task worker
  Attempt.click .clientOperation
  if !ok then Attempt.click .clientNotOk
  return worker

/-- Unless it stops, the client performs a task and works on with the worker that the task left. -/
theorem work_succ (remaining done : Nat) (worker : Worker) :
    c.work (remaining + 1) done worker = (do
      if ← c.shouldStop then
        Attempt.click .stoppedEarly
        return done
      else c.work remaining (done + 1) (← c.round worker)) := by
  have hround : c.round worker >>= c.work remaining (done + 1) = (do
      c.takeToken
      let (ok, worker) ← perform c.mode.task worker
      Attempt.click .clientOperation
      if !ok then Attempt.click .clientNotOk
      c.work remaining (done + 1) worker) := by
    simp only [round, bind_assoc]
    congr 2
    funext _
    congr 1
    funext result
    obtain ⟨ok, worker⟩ := result
    cases ok <;> rfl
  rw [work]
  congr 1
  funext stop
  cases stop with
  | true => rfl
  | false =>
    simp only [Bool.false_eq_true, if_false, hround, takeToken]
    split <;> rfl

theorem traces_takeToken {result : Except Failure Unit}
    (h : c.takeToken.run.Traces events log result) :
    events = [] ∧ log = c.token ∧ result = .ok () := by
  unfold takeToken at h
  unfold token
  split at h
  · next hpaced =>
    obtain ⟨_, rfl, rfl, rfl⟩ := traces_ask.1 h
    exact ⟨rfl, by rw [if_pos hpaced], rfl⟩
  · next hpaced =>
    obtain ⟨rfl, rfl, rfl⟩ := h
    exact ⟨rfl, by rw [if_neg hpaced], rfl⟩

theorem traces_round {worker : Worker} {result : Except Failure Worker}
    (h : (c.round worker).run.Traces events log result) :
    ∃ outcome next, log = c.token ++ [⟨.perform c.mode.task worker, (outcome, next)⟩] ∧
      result = outcome.map (fun _ => next) ∧ Reports events log := by
  have htoken : Reports [] c.token := .nil outcomes_token
  rcases Attempt.traces_run_bind.1 h with
    ⟨failure, rfl, hp⟩ | ⟨_, events₁, events₂, log₁, log₂, rfl, rfl, hp, htask⟩
  · obtain ⟨-, -, hfailure⟩ := traces_takeToken hp
    cases hfailure
  obtain ⟨rfl, rfl, -⟩ := traces_takeToken hp
  rcases Attempt.traces_run_bind.1 htask with
    ⟨failure, rfl, hp⟩ | ⟨⟨ok, next⟩, events₃, events₄, log₃, log₄, rfl, rfl, hp, hrest⟩
  · obtain ⟨outcome, next, rfl, rfl, hfailure⟩ := traces_perform hp
    cases outcome with
    | ok ok => cases hfailure
    | error failure =>
      cases hfailure
      exact ⟨.error failure, next, rfl, rfl,
        htoken.append (reports_reportsOf _ _ _ (.error failure))⟩
  · obtain ⟨outcome, next', rfl, rfl, hok⟩ := traces_perform hp
    cases outcome with
    | error failure => cases hok
    | ok ok' =>
      cases hok
      cases ok with
      | true =>
        obtain ⟨_, rfl, rfl, rfl, rfl⟩ := hrest
        exact ⟨.ok true, next, rfl, rfl, htoken.append (reports_reportsOf _ _ _ (.ok true))⟩
      | false =>
        obtain ⟨_, rfl, _, rfl, rfl, rfl, rfl⟩ := hrest
        exact ⟨.ok false, next, rfl, rfl, htoken.append (reports_reportsOf _ _ _ (.ok false))⟩

theorem traces_work (worker : Worker) (remaining done : Nat) {result : Except Failure Nat}
    (h : (c.work remaining done worker).run.Traces events log result) :
    ∃ results ending stop, log = c.rounds worker results ++ ending ∧
      c.Ending remaining results.length (workerAfter worker results) ending stop ∧
      result = stop.map (fun _ => done + results.length) ∧ Reports events log := by
  induction remaining generalizing worker done events log with
  | zero =>
    obtain ⟨rfl, rfl, rfl⟩ := h
    exact ⟨[], [], .ok (), rfl, .all rfl, rfl, .nil rfl⟩
  | succ remaining ih =>
    rw [work_succ] at h
    rcases Attempt.traces_run_bind.1 h with
      ⟨failure, rfl, hp⟩ | ⟨stop, events₁, events₂, log₁, log₂, rfl, rfl, hp, hrest⟩
    · obtain ⟨raised, hresult, -⟩ := traces_shouldStop hp
      cases hresult
    obtain ⟨raised, hraised, rfl, rfl, hflag⟩ := traces_shouldStop hp
    cases hraised
    have hlook : Reports [] (c.look stop) := .nil (outcomes_look stop)
    cases stop with
    | true =>
      obtain ⟨flag, hflag⟩ := hflag rfl
      obtain ⟨_, rfl, rfl, rfl, rfl⟩ := hrest
      have hpoll : c.look true = [⟨.poll flag, true⟩] := by rw [look, hflag]
      exact ⟨[], _, .ok (), by rw [hpoll]; rfl, .flagged (Nat.succ_pos _) hflag, rfl,
        hlook.append (reports_stoppedEarly rfl)⟩
    | false =>
      rcases Attempt.traces_run_bind.1 hrest with
        ⟨failure, rfl, hp⟩ | ⟨_, events₃, events₄, log₃, log₄, rfl, rfl, hp, hwork⟩
      · obtain ⟨outcome, next, rfl, hfailure, hreports⟩ := traces_round hp
        cases outcome with
        | ok ok => cases hfailure
        | error failure =>
          cases hfailure
          refine ⟨[], c.attempt worker (.error failure, next), .error failure, ?_,
            .failed (Nat.succ_pos _), rfl, hlook.append hreports⟩
          rw [rounds, List.nil_append, attempt, List.append_assoc]
      · obtain ⟨outcome, next, rfl, hok, hreports⟩ := traces_round hp
        cases outcome with
        | error failure => cases hok
        | ok ok =>
          cases hok
          obtain ⟨results, ending, stop, rfl, hending, rfl, hreports'⟩ := ih next (done + 1) hwork
          refine ⟨(ok, next) :: results, ending, stop, ?_, ?_, ?_,
            hlook.append (hreports.append hreports')⟩
          · simp only [rounds, attempt, List.append_assoc]
          · cases hending with
            | all hall => exact .all (congrArg (· + 1) hall)
            | flagged hlt hflag => exact .flagged (Nat.succ_lt_succ hlt) hflag
            | failed hlt => exact .failed (Nat.succ_lt_succ hlt)
          · rw [List.length_cons, Nat.add_assoc, Nat.add_comm 1]

/-- The start of a session, once there is a worker. -/
def enter (c : Client) : Attempt clientCalls Unit :=
  if c.initializes then initAdapter else return ()

/-- The end of a session. -/
def leave (c : Client) : Attempt clientCalls Unit :=
  if c.cleansUp then cleanAdapter else return ()

theorem session_eq [Machine] : c.session = (do
    let worker ← Attempt.ofExcept (Worker.ofSeed? c.seed c.valuePoolSize)
    c.enter
    let done ← c.work c.ops 0 worker
    c.leave
    return done) := by
  have hleave : (fun done => c.leave >>= fun _ => (pure done : Attempt clientCalls Nat)) =
      fun done => do
        if c.cleansUp then cleanAdapter
        return done := by
    funext done
    unfold leave
    split <;> rfl
  unfold session
  congr 1
  funext worker
  simp only [hleave, enter]
  split <;> rfl

theorem traces_enter {result : Except Failure Unit} (h : c.enter.run.Traces events log result) :
    events = [] ∧ match result with
      | .ok _ => log = c.opening
      | .error failure => c.initializes = true ∧ log = [⟨.initAdapter, .error failure⟩] := by
  unfold enter at h
  unfold opening
  split at h
  · next hinit =>
    obtain ⟨answer, _, rfl, rfl, rfl, rfl⟩ := h
    cases result with
    | ok => exact ⟨rfl, by rw [if_pos hinit]⟩
    | error failure => exact ⟨rfl, hinit, rfl⟩
  · next hinit =>
    obtain ⟨rfl, rfl, rfl⟩ := h
    exact ⟨rfl, by rw [if_neg hinit]⟩

theorem traces_leave {result : Except Failure Unit} (h : c.leave.run.Traces events log result) :
    events = [] ∧ match result with
      | .ok _ => log = c.closing
      | .error failure => c.cleansUp = true ∧ log = [⟨.cleanAdapter, .error failure⟩] := by
  unfold leave at h
  unfold closing
  split at h
  · next hclean =>
    obtain ⟨answer, _, rfl, rfl, rfl, rfl⟩ := h
    cases result with
    | ok => exact ⟨rfl, by rw [if_pos hclean]⟩
    | error failure => exact ⟨rfl, hclean, rfl⟩
  · next hclean =>
    obtain ⟨rfl, rfl, rfl⟩ := h
    exact ⟨rfl, by rw [if_neg hclean]⟩

theorem outcomes_opening : outcomes c.opening = [] := by
  unfold opening
  split <;> rfl

theorem outcomes_closing : outcomes c.closing = [] := by
  unfold closing
  split <;> rfl

theorem outcomes_rounds (worker : Worker) (results : List (Bool × Worker)) :
    outcomes (c.rounds worker results) = results.map fun result => .ok result.1 := by
  induction results generalizing worker with
  | nil => rfl
  | cons first results ih =>
    rw [rounds, attempt, outcomes_append, outcomes_append, outcomes_append, outcomes_look,
      outcomes_token, ih]
    rfl

/-- The work of a client ends well without a task. -/
theorem Ending.outcomes_eq_nil {tasks performed : Nat} {worker : Worker}
    (h : c.Ending tasks performed worker log (.ok ())) : outcomes log = [] := by
  cases h with
  | all => rfl
  | flagged => rfl

/-- A client that ends well returns the number of its tasks. -/
theorem Calls.length_outcomes [Machine] {count : Nat} (h : c.Calls log (.ok count)) :
    (outcomes log).length = count := by
  cases h with
  | @finished worker results _ _ hending =>
    rw [outcomes_append, outcomes_append, outcomes_append, outcomes_opening, outcomes_rounds,
      hending.outcomes_eq_nil, outcomes_closing, List.append_nil, List.append_nil,
      List.nil_append, List.length_map]

/-- Every trace of a session has one of the forms told, and its events tell of its tasks. -/
theorem traces_session [Machine] {result : Except Failure Nat}
    (h : c.session.run.Traces events log result) : c.Calls log result ∧ Reports events log := by
  rw [session_eq] at h
  rcases Attempt.traces_run_bind.1 h with
    ⟨failure, rfl, hp⟩ | ⟨worker, events₁, events₂, log₁, log₂, rfl, rfl, hp, hrest⟩
  · obtain ⟨rfl, rfl, hworker⟩ := hp
    exact ⟨.noWorker hworker.symm, .nil rfl⟩
  obtain ⟨rfl, rfl, hworker⟩ := hp
  rcases Attempt.traces_run_bind.1 hrest with
    ⟨failure, rfl, hp⟩ | ⟨_, events₃, events₄, log₃, log₄, rfl, rfl, hp, hwork⟩
  · obtain ⟨rfl, hinit, rfl⟩ := traces_enter hp
    exact ⟨.initFailed hworker.symm hinit, .nil rfl⟩
  obtain ⟨rfl, hlog⟩ := traces_enter hp
  obtain rfl : log₃ = c.opening := hlog
  have hopening : Reports [] c.opening := .nil outcomes_opening
  rcases Attempt.traces_run_bind.1 hwork with
    ⟨failure, rfl, hp⟩ | ⟨done, events₅, events₆, log₅, log₆, rfl, rfl, hp, hleave⟩
  · obtain ⟨results, ending, stop, rfl, hending, hstop, hreports⟩ := traces_work worker c.ops 0 hp
    cases stop with
    | ok => cases hstop
    | error =>
      cases hstop
      have hcalls := Calls.taskFailed hworker.symm hending
      rw [List.append_assoc] at hcalls
      exact ⟨hcalls, hopening.append hreports⟩
  obtain ⟨results, ending, stop, rfl, hending, hstop, hreports⟩ := traces_work worker c.ops 0 hp
  cases stop with
  | error failure => cases hstop
  | ok =>
    obtain rfl : done = results.length := by simpa [Except.map] using hstop
    rcases Attempt.traces_run_bind.1 hleave with
      ⟨failure, rfl, hp⟩ | ⟨_, events₇, events₈, log₇, log₈, rfl, rfl, hp, hdone⟩
    · obtain ⟨rfl, hclean, rfl⟩ := traces_leave hp
      have hcalls : c.Calls _ (.error failure) := .cleanFailed hworker.symm hending hclean
      have hfailed : Reports [] [⟨.cleanAdapter, .error failure⟩] := .nil rfl
      have hall := hopening.append (hreports.append hfailed)
      simp only [List.append_assoc] at hcalls hall ⊢
      exact ⟨hcalls, hall⟩
    · obtain ⟨rfl, hlog⟩ := traces_leave hp
      obtain rfl : log₇ = c.closing := hlog
      obtain ⟨rfl, rfl, rfl⟩ := hdone
      have hcalls := Calls.finished hworker.symm hending
      have hclosing : Reports [] c.closing := .nil outcomes_closing
      have hall := hopening.append (hreports.append hclosing)
      simp only [List.append_assoc, List.append_nil] at hcalls hall ⊢
      exact ⟨hcalls, hall⟩

end Traces

/-! ## The latch -/

variable {c : Client} {log : List (Answered clientCalls)} {result : Except Failure Nat}

/-- Whether a call leaves the latch alone. -/
def LeavesLatch (x : Answered clientCalls) : Prop := x.request ≠ .countDown

theorem leavesLatch_attempt {worker : Worker} {answer : Except Failure Bool × Worker} :
    ∀ x ∈ c.attempt worker answer, LeavesLatch x := by
  have hlook : ∀ x ∈ c.look false, LeavesLatch x := by
    unfold look
    split <;> simp [LeavesLatch]
  have htoken : ∀ x ∈ c.token, LeavesLatch x := by
    unfold token
    split <;> simp [LeavesLatch]
  simp only [attempt, List.forall_mem_append]
  exact ⟨⟨hlook, htoken⟩, by simp [LeavesLatch]⟩

theorem leavesLatch_rounds {worker : Worker} {results : List (Bool × Worker)} :
    ∀ x ∈ c.rounds worker results, LeavesLatch x := by
  induction results generalizing worker with
  | nil => exact List.forall_mem_nil _
  | cons first results ih => exact List.forall_mem_append.2 ⟨leavesLatch_attempt, ih⟩

theorem Ending.leavesLatch {tasks performed : Nat} {worker : Worker}
    {stop : Except Failure Unit} (h : c.Ending tasks performed worker log stop) :
    ∀ x ∈ log, LeavesLatch x := by
  cases h with
  | all => exact List.forall_mem_nil _
  | flagged => simp [LeavesLatch]
  | failed => exact leavesLatch_attempt

/-- The latch is not among the calls of a session. -/
theorem Calls.leavesLatch [Machine] (h : c.Calls log result) : ∀ x ∈ log, LeavesLatch x := by
  have hopening : ∀ x ∈ c.opening, LeavesLatch x := by
    unfold opening
    split <;> simp [LeavesLatch]
  have hclosing : ∀ x ∈ c.closing, LeavesLatch x := by
    unfold closing
    split <;> simp [LeavesLatch]
  cases h with
  | noWorker => exact List.forall_mem_nil _
  | initFailed => simp [LeavesLatch]
  | taskFailed hworker hending =>
    simp only [List.forall_mem_append]
    exact ⟨⟨hopening, leavesLatch_rounds⟩, hending.leavesLatch⟩
  | cleanFailed hworker hending =>
    simp only [List.forall_mem_append]
    exact ⟨⟨⟨hopening, leavesLatch_rounds⟩, hending.leavesLatch⟩, by simp [LeavesLatch]⟩
  | finished hworker hending =>
    simp only [List.forall_mem_append]
    exact ⟨⟨⟨hopening, leavesLatch_rounds⟩, hending.leavesLatch⟩, hclosing⟩

/-- Whether a call that may fail came to an answer. -/
def Answers : Answered clientCalls → Prop
  | ⟨.initAdapter, answer⟩ | ⟨.cleanAdapter, answer⟩ => hasAnswer answer = true
  | ⟨.perform _ _, (outcome, _)⟩ => hasAnswer outcome = true
  | _ => True

/-- A session whose value pool fits into memory and whose calls come to answers comes to one. -/
theorem Calls.hasAnswer [Machine] (h : c.Calls log result) (hfits : FitsMemory c.valuePoolSize 6)
    (hanswers : ∀ x ∈ log, Answers x) : StoreBench.hasAnswer result = true := by
  cases h with
  | noWorker hworker =>
    unfold Worker.ofSeed? Skew.BytePool.draw? at hworker
    rw [reserve_eq_ok_iff.2 hfits] at hworker
    by_cases hpos : 0 < c.valuePoolSize
    · simp only [hpos, dif_pos] at hworker
      cases hworker
    · simp only [hpos, dif_neg, not_false_eq_true] at hworker
      cases hworker
      rfl
  | initFailed => exact hanswers _ List.mem_cons_self
  | taskFailed hworker hending =>
    cases hending with
    | failed =>
      rw [attempt, ← List.append_assoc] at hanswers
      exact hanswers _ (List.mem_append_right _ List.mem_cons_self)
  | cleanFailed => exact hanswers _ (List.mem_append_right _ List.mem_cons_self)
  | finished => rfl

/-- The last call of a client that comes to an answer, and of no other. -/
def farewell (result : Except Failure Nat) : List (Answered clientCalls) :=
  if StoreBench.hasAnswer result then [⟨.countDown, ()⟩] else []

theorem outcomes_farewell (result : Except Failure Nat) : outcomes (farewell result) = [] := by
  unfold farewell
  split <;> rfl

theorem traces_run [Machine] {events : List Event} (h : c.run.Traces events log result) :
    ∃ calls, log = calls ++ farewell result ∧ c.session.run.Traces events calls result := by
  obtain ⟨came, events₁, events₂, log₁, log₂, rfl, rfl, hp, hrest⟩ := Program.traces_bind.1 h
  rcases came with (error | _ | _) | done
  · obtain ⟨_, _, rfl, rfl, rfl, rfl⟩ := hrest
    exact ⟨log₁, rfl, by rwa [List.append_nil]⟩
  · obtain ⟨rfl, rfl, rfl⟩ := hrest
    exact ⟨log₁, rfl, by rwa [List.append_nil]⟩
  · obtain ⟨rfl, rfl, rfl⟩ := hrest
    exact ⟨log₁, rfl, by rwa [List.append_nil]⟩
  · obtain ⟨_, _, rfl, rfl, rfl, rfl⟩ := hrest
    exact ⟨log₁, rfl, by rwa [List.append_nil]⟩

/-- The answer of one who has no objections. -/
def calm : (call : ClientCall) → call.Answer
  | .initAdapter => .ok ()
  | .perform _ worker => (.ok true, worker)
  | .poll _ => false
  | .takeToken => ()
  | .cleanAdapter => .ok ()
  | .countDown => ()

/-- The rules of one who counts the latch down once at most, after all else. What is known is
whether it has. -/
def counting : Protocol clientCalls Bool where
  allows counted _ := counted = false
  expects _ _ _ := True
  next
    | _, .countDown, _ => true
    | counted, _, _ => counted

/-- A client counts the latch down if and only if it comes to an answer. -/
theorem follows_run_counting [Machine] (c : Client) :
    c.run.Follows counting (fun counted result => StoreBench.hasAnswer result = counted) false := by
  have hothers : ∀ call : ClientCall, call ≠ .countDown →
      counting.allows false call ∧ ∀ answer, counting.next false call answer = false := by
    intro call hcall
    cases call with
    | countDown => exact absurd rfl hcall
    | _ => exact ⟨rfl, fun _ => rfl⟩
  have hsession : c.session.run.Follows counting (fun counted _ => counted = false) false :=
    .of_traces (fun call => ⟨calm call⟩) hothers fun events log result htraces =>
      ⟨(traces_session htraces).1.leavesLatch, rfl⟩
  refine Program.follows_bind.2 (hsession.imp ?_)
  rintro _ ((error | _ | _) | done) rfl
  · exact ⟨rfl, fun _ _ => rfl⟩
  · rfl
  · rfl
  · exact ⟨rfl, fun _ _ => rfl⟩

/-- Whether a client has come to an answer. -/
def returned (p : Program clientCalls (Except Failure Nat)) : Bool :=
  p.result?.any StoreBench.hasAnswer

/-- Those who have come to an answer are those who have counted the latch down. -/
theorem returned_eq {p : Program clientCalls (Except Failure Nat)} {counted : Bool}
    (h : p.Follows counting (fun counted result => StoreBench.hasAnswer result = counted) counted) :
    returned p = counted := by
  cases hpending : p.pending with
  | inl result =>
    rw [returned, Program.pending_eq_inl_iff.1 hpending]
    exact h.of_pending_inl hpending
  | inr next =>
    have hresult : p.result? = none := by simp [Program.result?, hpending]
    have hwaiting : counted = false := (h.of_pending_inr hpending).1
    rw [returned, hresult, hwaiting]
    rfl

/-! ### Clients that share a latch -/

section Shared

variable {n : Nat} {σ : Type}

/-- The answers of others, and a latch. -/
def latched (reply : Fin n → (call : ClientCall) → σ → call.Answer × σ) (i : Fin n) :
    (call : ClientCall) → Latch × σ → call.Answer × Latch × σ
  | .countDown, (latch, outside) => ((), latch.countDown, outside)
  | call, (latch, outside) =>
    let (answer, outside) := reply i call outside
    (answer, latch, outside)

variable {reply : Fin n → (call : ClientCall) → σ → call.Answer × σ}
  {crew : Crew clientCalls (Except Failure Nat) (Latch × σ) n}

/-- The latch says how many have not counted it down yet. -/
def Awaits (known : Fin n → Bool)
    (crew : Crew clientCalls (Except Failure Nat) (Latch × σ) n) : Prop :=
  crew.shared.1.count = (Finset.univ.filter fun i => known i = false).card

/-- Every client counts once at most, and the latch has been counted down by those who did. -/
abbrev Counts (crew : Crew clientCalls (Except Failure Nat) (Latch × σ) n) : Prop :=
  crew.Conforms counting (fun _ counted result => StoreBench.hasAnswer result = counted) Awaits

theorem counts_turn (h : Counts crew) (i : Fin n) : Counts (crew.turn (latched reply) i) := by
  refine Crew.Conforms.turn h fun known call rest _ hawaits hpending hallows => ⟨trivial, ?_⟩
  have hknown : known i = false := hallows
  rw [Crew.turn_of_pending_inr hpending]
  by_cases hcall : call = .countDown
  · subst hcall
    have hwaiting : (Finset.univ.filter fun j => Function.update known i true j = false) =
        (Finset.univ.filter fun j => known j = false).erase i := by
      ext j
      by_cases hj : j = i <;> simp [hj]
    show crew.shared.1.count - 1 =
      (Finset.univ.filter fun j => Function.update known i true j = false).card
    rw [hwaiting, Finset.card_erase_of_mem (by simpa using hknown), hawaits]
  · have hnext : ∀ answer, counting.next (known i) call answer = known i := by
      intro answer
      cases call with
      | countDown => exact absurd rfl hcall
      | _ => rfl
    have hlatch : (latched reply i call crew.shared).2.1 = crew.shared.1 := by
      cases call with
      | countDown => exact absurd rfl hcall
      | _ => rfl
    rw [hnext, Function.update_eq_self]
    exact (congrArg Latch.count hlatch).trans hawaits

/-- The latch of clients says how many have not come to an answer, and those alone count it down. -/
theorem Counts.count_eq (h : Counts crew) :
    crew.shared.1.count = (Finset.univ.filter fun i => returned (crew.members i) = false).card ∧
      ∀ i, (crew.members i).request? = some .countDown → returned (crew.members i) = false := by
  obtain ⟨known, hfollows, hawaits⟩ := h
  have hknown : ∀ i, returned (crew.members i) = known i := fun i => returned_eq (hfollows i)
  refine ⟨?_, fun i hrequest => ?_⟩
  · simp only [hknown]
    exact hawaits
  · rw [hknown]
    exact (hfollows i).allows hrequest

theorem counts_run [Machine] (clients : Fin n → Client) (outside : σ) (schedule : List (Fin n)) :
    Counts ((Crew.start (fun i => (clients i).run) (⟨n⟩, outside)).run (latched reply)
      schedule) := by
  refine Crew.run_preserves (I := Counts) (fun crew i h => counts_turn h i) ?_ schedule
  refine ⟨fun _ => false, fun i => follows_run_counting (clients i), ?_⟩
  show n = (Finset.univ.filter fun _ : Fin n => false = false).card
  simp

end Shared

/-- Whatever a client is answered, its calls have one of the forms told, and with them what it comes
to; they leave the latch alone, which is counted down once after them if the client comes to an
answer, and not at all otherwise; and it comes to one if its value pool fits into memory and each of
its calls came to one.

A latch that so many clients share always says how many of them have not come to an answer yet, and
none of them counts it down when it is zero already. -/
theorem calls_then_latch [Machine] :
    (∀ (c : Client) (σ : Type) (reply : (call : ClientCall) → σ → call.Answer × σ) (outside : σ),
      let (result, _, log) :=
        c.run.evaluate (Program.logging (ι := clientCalls) reply) (outside, [])
      ∃ calls, log = calls ++ farewell result ∧ c.Calls calls result ∧
        (∀ x ∈ calls, LeavesLatch x) ∧
        (FitsMemory c.valuePoolSize 6 → (∀ x ∈ calls, Answers x) →
          StoreBench.hasAnswer result = true)) ∧
    ∀ (n : Nat) (clients : Fin n → Client) (σ : Type)
      (reply : Fin n → (call : ClientCall) → σ → call.Answer × σ) (outside : σ)
      (schedule : List (Fin n)),
      let crew := (Crew.start (fun i => (clients i).run) (⟨n⟩, outside)).run (latched reply)
        schedule
      crew.shared.1.count =
        (Finset.univ.filter fun i => returned (crew.members i) = false).card ∧
      (crew.shared.1.count = 0 ↔ ∀ i, returned (crew.members i) = true) ∧
      ∀ i, (crew.members i).request? = some .countDown → 0 < crew.shared.1.count := by
  refine ⟨fun c σ reply outside => ?_, fun n clients σ reply outside schedule => ?_⟩
  · obtain ⟨events, log, hlog, htraces⟩ :=
      Program.traces_logging (ι := clientCalls) reply c.run outside []
    obtain ⟨calls, hcalls, hsession⟩ := traces_run htraces
    have hform := (traces_session hsession).1
    exact ⟨calls, hlog.trans hcalls, hform, hform.leavesLatch, hform.hasAnswer⟩
  · intro crew
    have hcounts : Counts crew := counts_run clients outside schedule
    obtain ⟨hcount, hpending⟩ := hcounts.count_eq
    refine ⟨hcount, ?_, fun i hrequest => ?_⟩
    · rw [hcount, Finset.card_eq_zero, Finset.filter_eq_empty_iff]
      simp
    · rw [hcount, Finset.card_pos]
      exact ⟨i, by simpa using hpending i hrequest⟩

section

attribute [local instance] Machine.largest

/-- A client whose value pool no memory holds ends without an answer, and the latch is not counted
down. -/
theorem latch_never_opens :
    let c : Client := { mode := .load, ops := 0, valuePoolSize := UInt64.size - 1 }
    let crew := (Crew.start (fun _ : Fin 1 => c.run) (⟨1⟩, ())).run
      (latched fun _ call outside => (calm call, outside)) [0]
    (crew.members 0).result? = some (.error .fault) ∧ crew.shared.1.count = 1 := by
  refine ⟨rfl, rfl⟩

end

end Client

end StoreBench
