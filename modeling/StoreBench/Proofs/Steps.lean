import StoreBench.Proofs.Crew
import StoreBench.Proofs.Numbers
import StoreBench.Proofs.Tasks
/-!
# Clients step by step

Clients of a phase share the registry, the numbering of records and the latch, and have an adapter
and a limiter each. Their programs are broken down into the steps that others can come between:
taking a record number, one operation of an adapter, and everything a client asks for beside its
tasks. Between those steps somebody can let the phase go on after loaded records.
-/

namespace StoreBench

/-- What those who use a workload ask for: what a client does, or to go on after the records of the
workload as though they had been inserted. -/
inductive CallerCall where
  | client (call : ClientCall)
  | assumeLoaded

abbrev CallerCall.Answer : CallerCall → Type
  | client call => call.Answer
  | assumeLoaded => Unit

abbrev callerCalls : Interface := ⟨CallerCall, CallerCall.Answer⟩

/-- What callers and workloads ask for. -/
inductive StepCall where
  | client (call : ClientCall)
  | workload (call : WorkloadCall)
  | assumeLoaded

abbrev StepCall.Answer : StepCall → Type
  | client call => call.Answer
  | workload call => call.Answer
  | assumeLoaded => Unit

abbrev stepCalls : Interface := ⟨StepCall, StepCall.Answer⟩

/-- A task in single steps. -/
def Workload.steps [Machine] (w : Workload) (task : Task) (worker : Worker) :
    Program stepCalls (Except Failure Bool × Worker) :=
  (w.run task worker).interpret Program.emit fun call =>
    Program.call (ι := stepCalls) (.workload call)

/-- What a client asks for in single steps, those of its tasks included. -/
def ClientCall.steps [Machine] (w : Workload) : (call : ClientCall) → Program stepCalls call.Answer
  | perform task worker => w.steps task worker
  | call => Program.call (ι := stepCalls) (.client call)

/-- Waiting, asking whether to stop and counting the latch down. -/
def ClientCall.IsIdle : ClientCall → Prop
  | poll _ | takeToken | countDown => True
  | _ => False

def CallerCall.steps [Machine] (w : Workload) : (call : CallerCall) → Program stepCalls call.Answer
  | client call => call.steps w
  | assumeLoaded => Program.call (ι := stepCalls) .assumeLoaded

/-- A caller's program in single steps. -/
def Caller.steps [Machine] {α : Type} (w : Workload) (p : Program callerCalls α) :
    Program stepCalls α :=
  p.interpret Program.emit (CallerCall.steps w)

/-- A client as a caller. -/
def Client.asCaller {α : Type} (p : Program clientCalls α) : Program callerCalls α :=
  p.interpret Program.emit fun call => Program.call (ι := callerCalls) (.client call)

/-- The single steps of a client are those of what it asks for. -/
theorem Caller.steps_asCaller [Machine] {α : Type} (w : Workload) (p : Program clientCalls α) :
    steps w (Client.asCaller p) = p.interpret Program.emit (ClientCall.steps w) := by
  induction p with
  | done a => rfl
  | note event rest ih => exact congrArg (Program.note event) ih
  | ask call rest ih => exact congrArg (Program.bind (ClientCall.steps w call)) (funext ih)

/-- The answer of a session to a single step. -/
def Session.answerStep [Machine] (w : Workload) : (call : StepCall) → SessionM call.Answer
  | .client call => answerClient w call
  | .workload call => answerWorkload performMeasured call
  | .assumeLoaded => modify fun s =>
    { s with numbers := s.numbers.assumeLoaded w.options.recordCount }

/-- What the clients of a phase share, with the adapter and the limiter of each. -/
structure Phase (n : Nat) where
  registry : Registry
  numbers : Numbering
  latch : Latch
  adapters : Fin n → Adapter
  limiters : Fin n → Option RateLimiter

namespace Phase

variable {n : Nat}

/-- The session of a client. -/
def session (phase : Phase n) (i : Fin n) : Session :=
  ⟨phase.registry, phase.numbers, phase.adapters i, phase.latch, phase.limiters i, []⟩

/-- The phase after a step in the session of a client. -/
def after (phase : Phase n) (i : Fin n) (s : Session) : Phase n :=
  ⟨s.registry, s.numbers, s.latch, Function.update phase.adapters i s.adapter,
    Function.update phase.limiters i s.limiter⟩

/-- The answer to a client's next step. -/
def answer [Machine] (w : Workload) (i : Fin n) (call : StepCall) (phase : Phase n) :
    call.Answer × Phase n :=
  let (a, s) := (Session.answerStep w call).run (phase.session i)
  (a, phase.after i s)

variable {w : Workload} {i : Fin n} {phase : Phase n}

theorem after_session (phase : Phase n) (i : Fin n) : phase.after i (phase.session i) = phase := by
  simp [after, session]

theorem answer_takeNumber [Machine] : answer w i (.workload .takeNumber) phase =
    (phase.numbers.next, { phase with numbers := phase.numbers.take.2 }) := by
  have hafter : answer w i (.workload .takeNumber) phase = (phase.numbers.next,
      { phase.after i (phase.session i) with numbers := phase.numbers.take.2 }) := rfl
  rw [hafter, after_session]

theorem answer_initAdapter [Machine] : answer w i (.client .initAdapter) phase =
    let initialized := (phase.adapters i).init.run phase.registry
    (initialized.1.1, { phase with
      registry := initialized.2
      adapters := Function.update phase.adapters i initialized.1.2 }) := by
  have hlimiters := Function.update_eq_self i phase.limiters
  exact congrArg (fun limiters => (((phase.adapters i).init.run phase.registry).1.1,
    (⟨_, phase.numbers, phase.latch, _, limiters⟩ : Phase n))) hlimiters

theorem answer_cleanAdapter [Machine] : answer w i (.client .cleanAdapter) phase =
    let cleaned := (phase.adapters i).cleanup.run phase.registry
    (cleaned.1.1, { phase with
      registry := cleaned.2
      adapters := Function.update phase.adapters i cleaned.1.2 }) := by
  have hlimiters := Function.update_eq_self i phase.limiters
  exact congrArg (fun limiters => (((phase.adapters i).cleanup.run phase.registry).1.1,
    (⟨_, phase.numbers, phase.latch, _, limiters⟩ : Phase n))) hlimiters

/-- Idle calls leave the adapters and the numbering alone, and the registry but for the journal. -/
theorem answer_idle [Machine] (w : Workload) (i : Fin n) (phase : Phase n) {call : ClientCall}
    (hcall : call.IsIdle) :
    ∃ registry latch limiters, phase.registry.AgreesButJournal registry ∧
      (answer w i (.client call) phase).2 = { phase with registry, latch, limiters } := by
  have hafter : ∀ registry latch limiter, phase.registry.AgreesButJournal registry →
      ∃ registry' latch' limiters', phase.registry.AgreesButJournal registry' ∧
        phase.after i { phase.session i with registry, latch, limiter } =
          { phase with registry := registry', latch := latch', limiters := limiters' } := by
    intro registry latch limiter hagrees
    refine ⟨registry, latch, Function.update phase.limiters i limiter, hagrees, ?_⟩
    simp [after, session]
  cases call with
  | poll flag => exact hafter _ _ _ (.refl _)
  | countDown => exact hafter _ _ _ (.refl _)
  | takeToken =>
    have hstep : (answer w i (.client .takeToken) phase).2 =
        phase.after i (Session.takeToken.run (phase.session i)).2 := rfl
    rw [hstep]
    cases hlimiter : phase.limiters i with
    | none =>
      have hnothing : Session.takeToken.run (phase.session i) = ((), phase.session i) := by
        simp only [Session.takeToken, session, hlimiter]
        rfl
      rw [hnothing]
      exact hafter _ _ _ (.refl _)
    | some limiter =>
      let taken := (Registry.runSilent limiter.consume).run phase.registry
      have htaken : Session.takeToken.run (phase.session i) =
          ((), { phase.session i with registry := taken.2, limiter := some taken.1 }) := by
        simp only [Session.takeToken, session, hlimiter]
        rfl
      rw [htaken]
      exact hafter _ _ _ (Registry.runSilent_agrees _ _)
  | _ => exact hcall.elim

theorem numbers_answer_client [Machine] {call : ClientCall}
    (hcall : ∀ task worker, call ≠ .perform task worker) :
    (answer w i (.client call) phase).2.numbers = phase.numbers := by
  have hidle : call.IsIdle → (answer w i (.client call) phase).2.numbers = phase.numbers := by
    intro hidle
    obtain ⟨registry, latch, limiters, -, hafter⟩ := answer_idle w i phase hidle
    rw [hafter]
  cases call with
  | perform task worker => exact absurd rfl (hcall task worker)
  | initAdapter => rfl
  | cleanAdapter => rfl
  | _ => exact hidle trivial

theorem answer_assumeLoaded [Machine] : answer w i .assumeLoaded phase =
    ((), { phase with numbers := phase.numbers.assumeLoaded w.options.recordCount }) := by
  have hafter : answer w i .assumeLoaded phase = ((), { phase.after i (phase.session i) with
      numbers := phase.numbers.assumeLoaded w.options.recordCount }) := rfl
  rw [hafter, after_session]

/-- An operation of a client's adapter. -/
theorem answer_perform [Machine] (w : Workload) (i : Fin n) (phase : Phase n) (op : Operation) :
    let performed := ((phase.adapters i).perform op).run phase.registry
    ∃ registry, performed.2.AgreesButJournal registry ∧
      answer w i (.workload (.perform op)) phase = (performed.1, { phase with registry }) := by
  obtain ⟨registry, hagrees, hrun⟩ := Session.performMeasured_eq op (phase.session i)
  refine ⟨registry, hagrees, ?_⟩
  have hstep : (Session.answerStep w (.workload (.perform op))).run (phase.session i) =
      (((((phase.session i).adapter.perform op).run phase.registry).1 : Except Failure op.Result),
        { phase.session i with registry }) := hrun
  have hafter : answer w i (.workload (.perform op)) phase =
      ((((phase.adapters i).perform op).run phase.registry).1,
        { phase.after i (phase.session i) with registry }) := by
    rw [answer, hstep]
    rfl
  rw [hafter, after_session]

end Phase

/-- Callers on a phase, served step by step in the order of a schedule. -/
def Caller.run [Machine] {n : Nat} {α : Type} (w : Workload)
    (callers : Fin n → Program callerCalls α)
    (phase : Phase n) (schedule : List (Fin n)) : Crew stepCalls α (Phase n) n :=
  (Crew.start (fun i => steps w (callers i)) phase).run (Phase.answer w) schedule

/-! ## Following a protocol step by step -/

namespace Workload

variable {w : Workload} {κ α : Type} {P : Protocol stepCalls κ} {task : Task}

/-- What a task follows step by step, given what it knows at each of its stages. -/
theorem follows_steps [Machine] {R : Stage → κ → Prop}
    (htake : ∀ k, R (.planning none) k → P.allows k (.workload .takeNumber) ∧
      ∀ number, P.expects k (.workload .takeNumber) number →
        R (.planning (some number)) (P.next k (.workload .takeNumber) number))
    (hperform : ∀ k number op, R (.planning number) k → w.Chooses task op.kind →
      w.Issues number op → P.allows k (.workload (.perform op)) ∧
        ∀ outcome, P.expects k (.workload (.perform op)) outcome →
          R (.issued ⟨op, outcome⟩) (P.next k (.workload (.perform op)) outcome))
    {k : κ} (h : R (.planning none) k) (worker : Worker) :
    (w.steps task worker).Follows P (fun k result => ∃ stage, R stage k ∧
      ((∃ failure, result.1 = .error failure ∧ w.FillerFails stage failure) ∨
        ∃ issued, stage = .issued issued ∧ result.1 = issued.success)) k := by
  refine Program.Follows.imp (Program.Follows.interpret (R := R) ?_ (follows_run worker) h) ?_
  · intro stage k call hallows hR
    cases stage with
    | issued issued => exact hallows.elim
    | planning number =>
      cases call with
      | takeNumber =>
        obtain rfl : number = none := hallows
        obtain ⟨hallowed, hnext⟩ := htake k hR
        exact ⟨hallowed, fun number hnumber => ⟨trivial, hnext number hnumber⟩⟩
      | perform op =>
        obtain ⟨hallowed, hnext⟩ := hperform k number op hR hallows.1 hallows.2
        exact ⟨hallowed, fun outcome houtcome => ⟨trivial, hnext outcome houtcome⟩⟩
  · rintro k result ⟨stage, hends, hR⟩
    exact ⟨stage, hR, hends⟩

end Workload

end StoreBench
