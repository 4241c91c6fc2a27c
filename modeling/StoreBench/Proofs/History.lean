import StoreBench.Proofs.Connection
import StoreBench.Proofs.Table
/-!
# Histories of operations

Connected adapters perform operations one after another. What they are answered depends on the
registry through the engine they are bound to alone, and only that engine changes: an adapter is as
good as its format evaluated on the engine. Two histories agree when every step of one is matched by
a step of the other.
-/

namespace StoreBench

/-! ## Steps in sequence -/

section Steps

variable {β γ σ τ : Type} (f : β → StateM σ γ)

theorem run_mapM_cons (b : β) (bs : List β) (s : σ) :
    ((b :: bs).mapM f).run s =
      (((f b).run s).1 :: ((bs.mapM f).run ((f b).run s).2).1,
        ((bs.mapM f).run ((f b).run s).2).2) := by
  rw [List.mapM_cons]
  rfl

theorem run_mapM_append (bs cs : List β) (s : σ) :
    ((bs ++ cs).mapM f).run s =
      (((bs.mapM f).run s).1 ++ ((cs.mapM f).run ((bs.mapM f).run s).2).1,
        ((cs.mapM f).run ((bs.mapM f).run s).2).2) := by
  induction bs generalizing s with
  | nil => rfl
  | cons b bs ih =>
    rw [List.cons_append, run_mapM_cons, run_mapM_cons, ih]
    rfl

/-- What came of a step is listed. -/
theorem mem_run_mapM (done : List β) (b : β) (rest : List β) (s : σ) :
    ((f b).run ((done.mapM f).run s).2).1 ∈ (((done ++ b :: rest).mapM f).run s).1 := by
  rw [run_mapM_append, run_mapM_cons]
  simp

variable {f} {g : β → StateM τ γ} {I : σ → τ → Prop} {P : σ → β → Prop}

/-- Steps that keep two states related and give the same results do so in any number. The condition
on a step may speak of the state it is taken in. -/
theorem run_mapM_simulates
    (hstep : ∀ b s t, I s t → P s b →
      ((f b).run s).1 = ((g b).run t).1 ∧ I ((f b).run s).2 ((g b).run t).2)
    {bs : List β} {s : σ} {t : τ} (h : I s t)
    (hsteps : ∀ done b rest, bs = done ++ b :: rest → P ((done.mapM f).run s).2 b) :
    ((bs.mapM f).run s).1 = ((bs.mapM g).run t).1 ∧
      I ((bs.mapM f).run s).2 ((bs.mapM g).run t).2 := by
  induction bs generalizing s t with
  | nil => exact ⟨rfl, h⟩
  | cons b bs ih =>
    obtain ⟨hresult, hnext⟩ := hstep b s t h (hsteps [] b bs rfl)
    have hrest : ∀ done c rest, bs = done ++ c :: rest →
        P ((done.mapM f).run ((f b).run s).2).2 c := by
      intro done c rest hbs
      have hc := hsteps (b :: done) c rest (by rw [hbs, List.cons_append])
      rwa [run_mapM_cons] at hc
    obtain ⟨hresults, hlast⟩ := ih hnext hrest
    rw [run_mapM_cons, run_mapM_cons, hresult, hresults]
    exact ⟨rfl, hlast⟩

/-- What every step preserves, any number of them does. -/
theorem run_mapM_preserves {J : σ → Prop} {bs : List β}
    (hstep : ∀ b ∈ bs, ∀ s, J s → J ((f b).run s).2) {s : σ} (h : J s) :
    J ((bs.mapM f).run s).2 := by
  induction bs generalizing s with
  | nil => exact h
  | cons b bs ih =>
    obtain ⟨hb, hbs⟩ := List.forall_mem_cons.1 hstep
    rw [run_mapM_cons]
    exact ih hbs (hb s h)

end Steps

/-- An operation with its answer. -/
structure Exchange where
  op : Operation
  answer : Except Failure op.Result

/-- Whether an operation was refused because a part of a row was too long to be encoded. -/
def Exchange.TooLong (x : Exchange) : Prop :=
  ∃ part length, x.answer = .error (.raised (.invalidArgument (.longPart part length)))

/-- What an engine holds. -/
inductive Contents where
  | keyValue (entries : SortedMap Bytes)
  | tuple (tuples : SortedMap (List Bytes))

def Engine.contents : Engine → Contents
  | keyValue engine => .keyValue engine.entries
  | tuple engine => .tuple engine.tuples

/-- The identity of the engine referred to. -/
def Binding.engineId : Binding → Nat
  | keyValue engine _ => engine
  | tuple engine _ => engine

namespace Adapter

/-- What the engine of an initialized adapter holds. -/
def stored (a : Adapter) (r : Registry) : Option Contents :=
  match a with
  | basic _ => none
  | engine a => do
    let binding ← a.binding
    let engine ← r.engines[binding.engineId]?
    return engine.contents

/-- The answer of an adapter to an operation. -/
def answer [Machine] (a : Adapter) (r : Registry) (op : Operation) : Except Failure op.Result :=
  ((a.perform op).run r).1

/-- Perform an operation and take down the answer. -/
def exchange [Machine] (a : Adapter) (op : Operation) : RegistryM Exchange := do
  return ⟨op, ← a.perform op⟩

/-- Perform operations one after another, each by an adapter of its own. -/
def performAll [Machine] (steps : List (Adapter × Operation)) : RegistryM (List Exchange) :=
  steps.mapM fun (a, op) => a.exchange op

/-- Perform operations one after another. -/
def performHistory [Machine] (a : Adapter) (history : List Operation) : RegistryM (List Exchange) :=
  history.mapM a.exchange

@[simp] theorem run_performHistory_nil [Machine] (a : Adapter) (r : Registry) :
    (a.performHistory []).run r = ([], r) := rfl

theorem run_performHistory_cons [Machine] (a : Adapter) (op : Operation) (history : List Operation)
    (r : Registry) :
    (a.performHistory (op :: history)).run r =
      (⟨op, ((a.perform op).run r).1⟩ ::
          ((a.performHistory history).run ((a.perform op).run r).2).1,
        ((a.performHistory history).run ((a.perform op).run r).2).2) :=
  run_mapM_cons a.exchange op history r

end Adapter

namespace Table

/-- Let a table answer an operation and take down the answer. -/
def exchange (fieldCount : Nat) (op : Operation) : StateM Table Exchange := fun t =>
  (⟨op, (t.perform fieldCount op).1⟩, (t.perform fieldCount op).2)

/-- Let a table answer operations one after another. -/
def performAll (fieldCount : Nat) (history : List Operation) : StateM Table (List Exchange) :=
  history.mapM (exchange fieldCount)

variable {fieldCount : Nat} {t : Table}

/-- A table refuses nothing for its length. -/
theorem not_tooLong_exchange (op : Operation) :
    ¬ ((exchange fieldCount op).run t).1.TooLong := by
  rintro ⟨part, length, h⟩
  rcases error_of_perform fieldCount h with
    ⟨cause, hcause⟩ | ⟨name, hname⟩ | ⟨low, high, cause, hbounds, hcause⟩
  · cases hcause
  · cases hname
  · cases hcause
    exact Predicate.ofBounds?_ne_longPart hbounds

theorem not_tooLong_performAll (history : List Operation) :
    ∀ x ∈ ((performAll fieldCount history).run t).1, ¬ x.TooLong := by
  induction history generalizing t with
  | nil =>
    intro x hx
    cases hx
  | cons op history ih =>
    rw [performAll, run_mapM_cons]
    exact List.forall_mem_cons.2 ⟨not_tooLong_exchange op, ih⟩

end Table

/-! ## The registry around an engine -/

namespace Registry

/-- The registry has an engine under an identity. -/
def Keeps (r : Registry) (id : Nat) (engine : Engine) : Prop := r.engines[id]? = some engine

variable {α : Type} {r : Registry} {id : Nat}

theorem Keeps.record {engine : Engine} (h : r.Keeps id engine) (event : Event) :
    ((Registry.record event).run r).2.Keeps id engine := h

theorem runSilent_eq (p : Program .silent α) (r : Registry) :
    ((runSilent p).run r).1 = p.value ∧ ((runSilent p).run r).2.engines = r.engines := by
  induction p generalizing r with
  | done a => exact ⟨rfl, rfl⟩
  | note event rest ih => exact ih ((record event).run r).2
  | ask request => exact nomatch request

theorem answerKeyValue_eq {e : KeyValueEngine} (h : r.Keeps id (.keyValue e))
    (call : KeyValueCall) :
    ((answerKeyValue id call).run r).1 = (e.serve call).1 ∧
      ((answerKeyValue id call).run r).2.Keeps id (.keyValue (e.serve call).2) := by
  obtain ⟨hvalue, hengines⟩ := runSilent_eq (e.answer call) r
  have hid : id < r.engines.length := (List.getElem?_eq_some_iff.1 h).1
  simp only [answerKeyValue, StateT.run_bind, StateT.run_get, pure_bind]
  rw [h]
  refine ⟨congrArg Prod.fst hvalue, ?_⟩
  show (((runSilent (e.answer call)).run r).2.engines.set id
    (.keyValue ((runSilent (e.answer call)).run r).1.2))[id]? = _
  rw [hvalue, hengines]
  exact List.getElem?_set_self hid

theorem answerTuple_eq {e : TupleEngine} (h : r.Keeps id (.tuple e)) (call : TupleCall) :
    ((answerTuple id call).run r).1 = (e.serve call).1 ∧
      ((answerTuple id call).run r).2.Keeps id (.tuple (e.serve call).2) := by
  have hid : id < r.engines.length := (List.getElem?_eq_some_iff.1 h).1
  simp only [answerTuple, StateT.run_bind, StateT.run_get, pure_bind]
  rw [h]
  exact ⟨rfl, List.getElem?_set_self hid⟩

/-- A program run on a key-value engine of the registry. -/
theorem runKeyValue_eq {e : KeyValueEngine} (h : r.Keeps id (.keyValue e))
    (p : Attempt keyValueCalls α) :
    ((runKeyValue id p).run r).1 = (e.run p).1 ∧
      ((runKeyValue id p).run r).2.Keeps id (.keyValue (e.run p).2) :=
  Program.interpret_eq_evaluate
    (R := fun (r : Registry) (e : KeyValueEngine) => r.Keeps id (.keyValue e)) _
    (fun event _ _ h => Keeps.record h event) (fun call _ _ h => answerKeyValue_eq h call) p.run h

/-- A program run on a tuple engine of the registry. -/
theorem runTuple_eq {e : TupleEngine} (h : r.Keeps id (.tuple e)) (p : Attempt tupleCalls α) :
    ((runTuple id p).run r).1 = (e.run p).1 ∧
      ((runTuple id p).run r).2.Keeps id (.tuple (e.run p).2) :=
  Program.interpret_eq_evaluate
    (R := fun (r : Registry) (e : TupleEngine) => r.Keeps id (.tuple e)) _
    (fun event _ _ h => Keeps.record h event) (fun call _ _ h => answerTuple_eq h call) p.run h

end Registry

namespace EngineAdapter

variable {a : EngineAdapter} {r : Registry} {id : Nat}

theorem counted_eq {α : Type} (result : Except Failure α) (r : Registry) :
    ((counted result).run r).1 = result ∧ ((counted result).run r).2.engines = r.engines := by
  rcases result with (_ | _ | _) | _ <;> exact ⟨rfl, rfl⟩

/-- Clicking for a result that names no record returns the result. -/
theorem click_notFound_eq (op : Operation) (result : Except Failure op.Result) (r : Registry) :
    let clicked : RegistryM (Except Failure op.Result) := match result with
      | .ok value => do
        (notFoundSensor? op value).forM Registry.click
        return result
      | .error _ => return result
    (clicked.run r).1 = result ∧ (clicked.run r).2.engines = r.engines := by
  cases result with
  | error failure => exact ⟨rfl, rfl⟩
  | ok value =>
    refine ⟨rfl, ?_⟩
    show (((notFoundSensor? op value).forM Registry.click : RegistryM Unit).run r).2.engines = _
    cases notFoundSensor? op value <;> rfl

/-- What is done around an operation on the engine changes neither its result nor an engine. -/
theorem perform_eq [Machine] {binding : Binding} (hbinding : a.binding = some binding)
    (op : Operation) (r : Registry) :
    let clicked := ((Registry.click (.adapterOperation op.kind)).run r).2
    ((a.perform op).run r).1 = ((performOn op binding).run clicked).1 ∧
      ((a.perform op).run r).2.engines = ((performOn op binding).run clicked).2.engines := by
  intro clicked
  let outcome := (performOn op binding).run clicked
  let counting := (counted outcome.1).run outcome.2
  obtain ⟨hresult, hengines⟩ := counted_eq outcome.1 outcome.2
  obtain ⟨hresult', hengines'⟩ := click_notFound_eq op counting.1 counting.2
  simp only [perform, hbinding]
  exact ⟨hresult'.trans hresult, hengines'.trans hengines⟩

theorem perform_keyValue [Machine] {f : SchemalessFormat} {e : KeyValueEngine}
    (hbinding : a.binding = some (.keyValue id f)) (h : r.Keeps id (.keyValue e))
    (op : Operation) :
    ((a.perform op).run r).1 = (e.run (f.perform op)).1 ∧
      ((a.perform op).run r).2.Keeps id (.keyValue (e.run (f.perform op)).2) := by
  obtain ⟨hresult, hengines⟩ := perform_eq hbinding op r
  obtain ⟨hvalue, hkeeps⟩ := Registry.runKeyValue_eq (h.record _) (f.perform op)
  exact ⟨hresult.trans hvalue, (congrArg (·[id]?) hengines).trans hkeeps⟩

theorem perform_tuple [Machine] {f : ColumnarFormat} {e : TupleEngine}
    (hbinding : a.binding = some (.tuple id f)) (h : r.Keeps id (.tuple e)) (op : Operation) :
    ((a.perform op).run r).1 = (e.run (f.perform op)).1 ∧
      ((a.perform op).run r).2.Keeps id (.tuple (e.run (f.perform op)).2) := by
  obtain ⟨hresult, hengines⟩ := perform_eq hbinding op r
  obtain ⟨hvalue, hkeeps⟩ := Registry.runTuple_eq (h.record _) (f.perform op)
  exact ⟨hresult.trans hvalue, (congrArg (·[id]?) hengines).trans hkeeps⟩

end EngineAdapter

end StoreBench
