import StoreBench.Store.KeyValue
import StoreBench.Store.Tuple
/-!
# Programs evaluated against a state

To evaluate a program is to answer its requests from a state and to forget its events. Any other
interpretation whose answers agree with the state has the same value: this is how a statement about
an engine on its own becomes one about the registry that holds the engine. Evaluation respects
sequencing, so what an operation of a format does follows from what each of its calls does.
-/

namespace StoreBench

variable {ι : Interface} {α β σ τ : Type}

namespace Program

/-- A program's value and the state its requests leave. -/
def evaluate (answer : (request : ι.Request) → σ → ι.Answer request × σ) :
    Program ι α → σ → α × σ
  | done value, s => (value, s)
  | note _ rest, s => evaluate answer rest s
  | ask request rest, s => evaluate answer (rest (answer request s).1) (answer request s).2

variable (answer : (request : ι.Request) → σ → ι.Answer request × σ)

@[simp] theorem evaluate_done (a : α) (s : σ) : evaluate answer (done a) s = (a, s) := rfl

@[simp] theorem evaluate_note (event : Event) (p : Program ι α) (s : σ) :
    evaluate answer (note event p) s = evaluate answer p s := rfl

@[simp] theorem evaluate_ask (request : ι.Request) (k : ι.Answer request → Program ι α) (s : σ) :
    evaluate answer (ask request k) s =
      evaluate answer (k (answer request s).1) (answer request s).2 := rfl

@[simp] theorem evaluate_bind (p : Program ι α) (f : α → Program ι β) (s : σ) :
    evaluate answer (p >>= f) s =
      evaluate answer (f (evaluate answer p s).1) (evaluate answer p s).2 := by
  induction p generalizing s with
  | done a => rfl
  | note event rest ih => exact ih s
  | ask request rest ih => exact ih _ _

/-- What no request changes is unchanged. -/
theorem evaluate_preserves {I : σ → Prop} (hanswer : ∀ request s, I s → I (answer request s).2)
    (p : Program ι α) {s : σ} (h : I s) : I (evaluate answer p s).2 := by
  induction p generalizing s with
  | done a => exact h
  | note event rest ih => exact ih h
  | ask request rest ih => exact ih _ (hanswer request s h)

/-- Answers that agree with a state give the values of evaluation. -/
theorem interpret_eq_evaluate {R : τ → σ → Prop} {record : Event → StateM τ Unit}
    {reply : (request : ι.Request) → StateM τ (ι.Answer request)}
    (hrecord : ∀ event t s, R t s → R ((record event).run t).2 s)
    (hreply : ∀ request t s, R t s → ((reply request).run t).1 = (answer request s).1 ∧
      R ((reply request).run t).2 (answer request s).2)
    (p : Program ι α) {t : τ} {s : σ} (h : R t s) :
    ((p.interpret record reply).run t).1 = (evaluate answer p s).1 ∧
      R ((p.interpret record reply).run t).2 (evaluate answer p s).2 := by
  induction p generalizing t s with
  | done a => exact ⟨rfl, h⟩
  | note event rest ih => exact ih (hrecord event t s h)
  | ask request rest ih =>
    obtain ⟨hvalue, hstate⟩ := hreply request t s h
    have hrest := ih (answer request s).1 hstate
    rw [evaluate_ask]
    rw [← hvalue] at hrest ⊢
    exact hrest

/-- The value of a program without requests. -/
def value (p : Program .silent α) : α := p.observe.1

@[simp] theorem value_done (a : α) : value (done a) = a := rfl

@[simp] theorem value_note (event : Event) (p : Program .silent α) :
    value (note event p) = value p := rfl

@[simp] theorem value_bind (p : Program .silent α) (f : α → Program .silent β) :
    value (p >>= f) = value (f (value p)) := by
  induction p with
  | done a => rfl
  | note event rest ih => exact ih
  | ask request => exact nomatch request

end Program

namespace Attempt

variable (answer : (request : ι.Request) → σ → ι.Answer request × σ)

/-- The outcome of an attempt and the state its requests leave. -/
def evaluate (p : Attempt ι α) (s : σ) : Except Failure α × σ := Program.evaluate answer p.run s

@[simp] theorem evaluate_pure (a : α) (s : σ) :
    evaluate answer (pure a) s = (.ok a, s) := rfl

@[simp] theorem evaluate_click (sensor : Sensor) (s : σ) :
    evaluate answer (click sensor) s = (.ok (), s) := rfl

@[simp] theorem evaluate_raise (e : Error) (s : σ) :
    evaluate answer (raise e : Attempt ι α) s = (.error (.raised e), s) := rfl

@[simp] theorem evaluate_ofExcept (result : Except Failure α) (s : σ) :
    evaluate answer (ofExcept result) s = (result, s) := rfl

theorem evaluate_bind (p : Attempt ι α) (f : α → Attempt ι β) (s : σ) :
    evaluate answer (p >>= f) s =
      match evaluate answer p s with
      | (.ok a, s') => evaluate answer (f a) s'
      | (.error failure, s') => (.error failure, s') := by
  simp only [evaluate, ExceptT.run_bind, Program.evaluate_bind]
  rcases Program.evaluate answer p.run s with ⟨_ | a, s'⟩ <;> rfl

/-- What follows an attempt that succeeds. -/
theorem evaluate_bind_ok {p : Attempt ι α} {a : α} {s s' : σ}
    (h : evaluate answer p s = (.ok a, s')) (f : α → Attempt ι β) :
    evaluate answer (p >>= f) s = evaluate answer (f a) s' := by
  rw [evaluate_bind, h]

theorem evaluate_bind_error {p : Attempt ι α} {failure : Failure} {s s' : σ}
    (h : evaluate answer p s = (.error failure, s')) (f : α → Attempt ι β) :
    evaluate answer (p >>= f) s = (.error failure, s') := by
  rw [evaluate_bind, h]

@[simp] theorem evaluate_ofProgram (p : Program ι (Except Error α)) (s : σ) :
    evaluate answer (ofProgram p) s =
      ((Program.evaluate answer p s).1.mapError .raised, (Program.evaluate answer p s).2) :=
  Program.evaluate_bind answer p _ s

@[simp] theorem evaluate_lift (p : Program ι α) (s : σ) :
    evaluate answer (lift p) s =
      (.ok (Program.evaluate answer p s).1, (Program.evaluate answer p s).2) :=
  Program.evaluate_bind answer p _ s

/-- Attempts that leave the state alone are made one after another by making their outcomes. -/
theorem evaluate_mapM {f : β → Attempt ι α} {g : β → Except Failure α} {bs : List β}
    (h : ∀ b ∈ bs, ∀ s, evaluate answer (f b) s = (g b, s)) (s : σ) :
    evaluate answer (bs.mapM f) s = (bs.mapM g, s) := by
  induction bs with
  | nil => rfl
  | cons b bs ih =>
    have hb := h b List.mem_cons_self
    have hbs := ih fun x hx => h x (List.mem_cons_of_mem b hx)
    rw [List.mapM_cons, List.mapM_cons, evaluate_bind, hb]
    cases g b with
    | error failure => rfl
    | ok a =>
      show evaluate answer (bs.mapM f >>= fun rest => pure (a :: rest)) s = _
      rw [evaluate_bind, hbs]
      cases bs.mapM g <;> rfl

theorem evaluate_filterMapM {f : β → Attempt ι (Option α)} {g : β → Except Failure (Option α)}
    {bs : List β} (h : ∀ b ∈ bs, ∀ s, evaluate answer (f b) s = (g b, s)) (s : σ) :
    evaluate answer (bs.filterMapM f) s = (bs.filterMapM g, s) := by
  induction bs with
  | nil => rfl
  | cons b bs ih =>
    have hb := h b List.mem_cons_self
    have hbs := ih fun x hx => h x (List.mem_cons_of_mem b hx)
    rw [List.filterMapM_cons, List.filterMapM_cons, evaluate_bind, hb]
    cases g b with
    | error failure => rfl
    | ok a =>
      cases a with
      | none => exact hbs
      | some a =>
        show evaluate answer (bs.filterMapM f >>= fun rest => pure (a :: rest)) s = _
        rw [evaluate_bind, hbs]
        cases bs.filterMapM g <;> rfl

end Attempt

/-! ## Engines on their own -/

namespace KeyValueEngine

/-- What a key-value engine answers, events forgotten. -/
def serve (call : KeyValueCall) (e : KeyValueEngine) :
    Except Failure call.Result × KeyValueEngine := (e.answer call).value

/-- The outcome of an attempt made of an engine, with the engine after it. -/
abbrev run (p : Attempt keyValueCalls α) (e : KeyValueEngine) :
    Except Failure α × KeyValueEngine := Attempt.evaluate (ι := keyValueCalls) serve p e

theorem run_attempt (call : KeyValueCall) (e : KeyValueEngine) :
    e.run call.attempt = e.serve call := rfl

variable {e : KeyValueEngine} (h : e.closed = false)

include h

theorem run_get (key : Bytes) :
    e.run (KeyValueCall.get key).attempt = (.ok e.entries[key]?, e) := by
  rw [run_attempt]
  simp [serve, answer, h]

theorem run_put (key value : Bytes) :
    e.run (KeyValueCall.put key value).attempt = (.ok (), e.store key value) := by
  rw [run_attempt]
  simp [serve, answer, h]

theorem run_delete (key : Bytes) :
    e.run (KeyValueCall.delete key).attempt = (.ok (), e.drop key) := by
  rw [run_attempt]
  simp [serve, answer, h]

theorem run_visit (start : Bytes) :
    e.run (KeyValueCall.visit start).attempt = (.ok (e.entries.entriesFrom start), e) := by
  rw [run_attempt]
  simp [serve, answer, h]

/-- What the merge operator makes of the stored value is stored. -/
theorem run_merge {operator : MergeOperator} (hoperator : e.mergeOperator = some operator)
    (key operand : Bytes) {merged : Bytes}
    (hmerged : (operator e.entries[key]? operand).value = .ok merged) :
    e.run (KeyValueCall.merge key operand).attempt = (.ok (), e.store key merged) := by
  rw [run_attempt]
  simp [serve, answer, h, mergeInto, hoperator, hmerged]

theorem run_scan (start : Bytes) (limit : Nat) :
    e.run (KeyValueCall.scan start limit) =
      (.ok ((e.entries.entriesFrom start).take limit), e) := by
  by_cases hlimit : limit = 0
  · simp [KeyValueCall.scan, hlimit]
  · rw [KeyValueCall.scan, if_neg hlimit, run, Attempt.evaluate_bind_ok _ (run_visit h start)]
    rfl

omit h in
theorem mergeOperator_serve (call : KeyValueCall) (e : KeyValueEngine) :
    (e.serve call).2.mergeOperator = e.mergeOperator := by
  by_cases hclosed : e.closed
  · simp [serve, answer, hclosed]
  · cases call with
    | merge key operand =>
      cases hoperator : e.mergeOperator with
      | none => simp [serve, answer, hclosed, mergeInto, hoperator]
      | some operator =>
        simp only [serve, answer, hclosed, mergeInto, hoperator, Bool.false_eq_true, if_false,
          Program.value_bind]
        cases (operator e.entries[key]? operand).value <;> exact hoperator
    | _ => simp [serve, answer, hclosed, store, drop]

omit h in
/-- An engine keeps its merge operator. -/
theorem mergeOperator_run (p : Attempt keyValueCalls α) (e : KeyValueEngine) :
    (e.run p).2.mergeOperator = e.mergeOperator :=
  Program.evaluate_preserves (ι := keyValueCalls) serve
    (I := fun (s : KeyValueEngine) => s.mergeOperator = e.mergeOperator)
    (fun call s hs => (mergeOperator_serve call s).trans hs) p.run rfl

end KeyValueEngine

namespace TupleEngine

/-- What a tuple engine answers, the engine coming last. -/
def serve (call : TupleCall) (e : TupleEngine) : Except Failure call.Result × TupleEngine :=
  e.answer call

/-- The outcome of an attempt made of an engine, with the engine after it. -/
abbrev run (p : Attempt tupleCalls α) (e : TupleEngine) :
    Except Failure α × TupleEngine := Attempt.evaluate (ι := tupleCalls) serve p e

theorem run_attempt (call : TupleCall) (e : TupleEngine) : e.run call.attempt = e.serve call := rfl

variable {e : TupleEngine} (h : e.closed = false)

include h

theorem run_get (key : Bytes) : e.run (TupleCall.get key).attempt = (.ok e.tuples[key]?, e) := by
  rw [run_attempt]
  simp [serve, answer, h]

/-- A tuple that is accepted is stored. -/
theorem run_put {key : Bytes} {slots : List Bytes} (hslots : e.accepts key slots = .ok ()) :
    e.run (TupleCall.put key slots).attempt =
      (.ok (), { e with tuples := e.tuples.insert key slots }) := by
  rw [run_attempt]
  simp [serve, answer, h, hslots]

theorem run_delete (key : Bytes) :
    e.run (TupleCall.delete key).attempt =
      (.ok (), { e with tuples := e.tuples.erase key }) := by
  rw [run_attempt]
  simp [serve, answer, h]

theorem run_visit (start : Bytes) :
    e.run (TupleCall.visit start).attempt =
      (.ok ((e.tuples.entriesFrom start).map Prod.snd), e) := by
  rw [run_attempt]
  simp [serve, answer, h]

theorem run_scan (start : Bytes) (limit : Nat) :
    e.run (TupleCall.scan start limit) =
      (.ok (((e.tuples.entriesFrom start).map Prod.snd).take limit), e) := by
  by_cases hlimit : limit = 0
  · simp [TupleCall.scan, hlimit]
  · rw [TupleCall.scan, if_neg hlimit, run, Attempt.evaluate_bind_ok _ (run_visit h start)]
    rfl

end TupleEngine

end StoreBench
