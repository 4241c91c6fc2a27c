import Mathlib.Data.List.Perm.Basic
import StoreBench.Proofs.References
/-!
# The lifecycle of shared engines

A fleet is a registry with the adapters that were made on it. Adapters come and go in any order:
they are created, initialized, cleaned up, dropped, and operations are performed on them. After
every step each engine has as many references as adapters of its name are initialized, and is open
exactly while there are any. What is done out of turn is refused and changes nothing, and while an
adapter stays initialized its data does.
-/

namespace StoreBench

/-- Whether an adapter holds a reference to the engine of a name. -/
def Adapter.holds (name : String) : Adapter → Bool
  | .basic _ => false
  | .engine a => a.binding.isSome && a.handle == name

/-- The number of adapters that hold a reference to the engine of a name. -/
def holders (adapters : List Adapter) (name : String) : Nat :=
  adapters.countP (Adapter.holds name)

theorem holders_perm {adapters adapters' : List Adapter} (h : adapters.Perm adapters') :
    holders adapters = holders adapters' :=
  funext fun name => h.countP_eq (Adapter.holds name)

/-- The format selected for an engine is one for engines of its kind. -/
theorem Format.kind_bind_of_select? {kind : EngineKind} {format : String} {p : Properties}
    {engine : String} {selected : Format} (h : select? kind format p engine = .ok selected)
    (id : Nat) : (selected.bind id).kind = kind := by
  cases kind with
  | keyValue =>
    cases hformat : SchemalessFormat.select? format p engine with
    | error cause => rw [select?, hformat] at h; cases h
    | ok f => rw [select?, hformat] at h; cases h; rfl
  | tuple =>
    cases hformat : ColumnarFormat.select? format p with
    | error cause => rw [select?, hformat] at h; cases h
    | ok f => rw [select?, hformat] at h; cases h; rfl

@[simp] theorem Format.engineId_bind (format : Format) (id : Nat) :
    (format.bind id).engineId = id := by
  cases format <;> rfl

/-! ## What single steps do -/

namespace EngineAdapter

variable {a : EngineAdapter} {r r' : Registry}

/-- With a format an initialization fails only where the opener of the engine does. -/
theorem init_eq_ok_iff (h : a.binding = none) {format : Format}
    (hformat : a.configuredFormat? r.properties = .ok format) {x : Registration}
    (hfind : r.find? a.handle = some x) :
    (a.init.run r).1.1 = .ok () ↔
      x.handle.isOpen = true ∨ ∃ engine, x.opener.run r.properties = .ok engine := by
  cases hengine : x.handle.engine with
  | some id =>
    obtain ⟨journal, heq⟩ :=
      init_of_acquire h hformat (Registry.acquire_open hfind hengine)
    rw [heq]
    exact iff_of_true rfl (.inl (Option.isSome_iff_exists.2 ⟨id, hengine⟩))
  | none =>
    have hclosed : ¬ x.handle.isOpen = true := by simp [SharedHandle.isOpen, hengine]
    cases hopener : x.opener.run r.properties with
    | ok engine =>
      obtain ⟨_, hacquire⟩ := Registry.acquire_first hfind hengine hopener
      obtain ⟨journal, heq⟩ := init_of_acquire h hformat hacquire
      rw [heq]
      exact iff_of_true rfl (.inr ⟨engine, rfl⟩)
    | error failure =>
      obtain ⟨_, hacquire⟩ := Registry.acquire_refused hfind hengine hopener
      obtain ⟨journal, heq⟩ := init_of_acquire_error h hformat hacquire
      rw [heq]
      refine iff_of_false (by simp) ?_
      rintro (hopen | ⟨engine, hopened⟩)
      · exact hclosed hopen
      · cases hopened

theorem cleanup_of_none (h : a.binding = none) (r : Registry) :
    a.cleanup.run r = ((.error (.raised (.configuration (.cleanedUpWithoutInit a.name))), a),
      { r with journal := .click .adapterError :: r.journal }) := by
  simp only [cleanup, h]
  rfl

/-- Cleaning up is dropping the reference, apart from what is reported. -/
theorem cleanup_of_binding {binding : Binding} (h : a.binding = some binding) (r : Registry) :
    ∃ clicked, r.AgreesButJournal clicked ∧
      (a.cleanup.run r).1 =
        (((Registry.release a.handle).run clicked).1, { a with binding := none }) ∧
      Registry.AgreesButJournal ((Registry.release a.handle).run clicked).2
        (a.cleanup.run r).2 := by
  refine ⟨_, Registry.record_agrees (.click .adapterCleanup) r, ?_⟩
  let released := (Registry.release a.handle).run
    ((Registry.record (.click .adapterCleanup)).run r).2
  obtain ⟨hsame, hcounted⟩ := counted_agrees released.1 released.2
  simp only [cleanup, h]
  exact ⟨congrArg (·, { a with binding := none }) hsame, hcounted⟩

theorem abandon_of_none (h : a.binding = none) (r : Registry) : (a.abandon.run r).2 = r := by
  simp only [abandon, h]
  rfl

theorem run_abandon {binding : Binding} (h : a.binding = some binding) (r : Registry) :
    let logged := ((Registry.log .warn (a.name ++ " adapter dropped without cleanup")).run r).2
    (a.abandon.run r).2 =
      ((match ((Registry.release a.handle).run logged).1 with
        | .error (.raised error) => Registry.log .error
            (a.name ++ " adapter could not release its engine: " ++ error.message)
        | _ => pure () : RegistryM Unit).run ((Registry.release a.handle).run logged).2).2 := by
  simp only [abandon, h]
  rfl

/-- Going away is dropping the reference, apart from what is reported. -/
theorem abandon_of_binding {binding : Binding} (h : a.binding = some binding) (r : Registry) :
    ∃ logged, r.AgreesButJournal logged ∧
      Registry.AgreesButJournal ((Registry.release a.handle).run logged).2 (a.abandon.run r).2 := by
  refine ⟨((Registry.log .warn (a.name ++ " adapter dropped without cleanup")).run r).2,
    Registry.record_agrees _ r, ?_⟩
  rw [run_abandon h]
  split <;> exact ⟨_, rfl⟩

end EngineAdapter

/-! ## Adapters on a registry -/

namespace Registry

variable {r r' : Registry} {a : EngineAdapter} {name : String} {x : Registration}
  {counted : String → Nat} {id : Nat}

/-- The registry has the handle of an adapter, and the engine the adapter is bound to is the one
that the handle refers to. -/
def Knows (r : Registry) (a : EngineAdapter) : Prop :=
  ∃ x, r.find? a.handle = some x ∧ x.opener.kind = a.kind ∧
    ∀ binding, a.binding = some binding →
      binding.kind = a.kind ∧ x.handle.engine = some binding.engineId

theorem Knows.of_idle (hfind : r.find? a.handle = some x) (hkind : x.opener.kind = a.kind)
    (hbinding : a.binding = none) : r.Knows a := by
  refine ⟨x, hfind, hkind, fun _ hbound => ?_⟩
  rw [hbinding] at hbound
  cases hbound

theorem Knows.of_eq (h : r.Knows a) (heq : r'.registrations = r.registrations) : r'.Knows a := by
  obtain ⟨x, hfind, hx⟩ := h
  refine ⟨x, ?_, hx⟩
  rw [find?, heq]
  exact hfind

theorem Knows.acquired (hknows : r.Knows a) (h : r.Acquired name x counted id r')
    (hfind : r.find? name = some x) : r'.Knows a := by
  obtain ⟨y, hy, hkind, hbound⟩ := hknows
  by_cases hname : a.handle = name
  · obtain ⟨handle, hfind', hengine⟩ := h.refers
    rw [hname] at hy
    cases hy.symm.trans hfind
    refine ⟨{ x with handle }, hname ▸ hfind', hkind, fun binding hbinding => ?_⟩
    obtain ⟨hsort, hheld⟩ := hbound binding hbinding
    exact ⟨hsort, hengine.trans (congrArg some (h.same _ hheld).symm)⟩
  · exact ⟨y, (h.agrees.find?_eq _ hname).trans hy, hkind, hbound⟩

theorem Knows.released (hknows : r.Knows a) {after : Except Failure Unit × Registry}
    (h : r.Released name x counted after) (hfind : r.find? name = some x)
    (hholds : a.binding.isSome → a.handle = name → 0 < counted name) : after.2.Knows a := by
  obtain ⟨y, hy, hkind, hbound⟩ := hknows
  by_cases hname : a.handle = name
  · obtain ⟨handle, hfind', hkept⟩ := h.refers
    rw [hname] at hy
    cases hy.symm.trans hfind
    refine ⟨{ x with handle }, hname ▸ hfind', hkind, fun binding hbinding => ?_⟩
    obtain ⟨hsort, hheld⟩ := hbound binding hbinding
    have hpos := hholds (hbinding ▸ rfl) hname
    exact ⟨hsort, (hkept hpos).1.trans hheld⟩
  · exact ⟨y, (h.agrees.find?_eq _ hname).trans hy, hkind, hbound⟩

/-- The number of references to the engine registered under a name. -/
def refs? (r : Registry) (name : String) : Option Nat := (r.find? name).map (·.handle.refs)

/-- The second registry has one more reference to the engine of a name than the first. -/
def OneMore (name : String) (r r' : Registry) : Prop :=
  ∃ refs, r.refs? name = some refs ∧ r'.refs? name = some (refs + 1)

end Registry

/-- The registry counts exactly the adapters that are initialized, and knows every adapter. -/
structure Exact (r : Registry) (adapters : List Adapter) : Prop where
  counts : r.Counts (holders adapters)
  knows : ∀ a, Adapter.engine a ∈ adapters → r.Knows a

/-- Between two registries neither the setup nor the engines that the adapters are bound to have
changed. -/
structure Untouched (r r' : Registry) (adapters : List Adapter) : Prop extends r.SameSetup r' where
  engines_eq : ∀ a, Adapter.engine a ∈ adapters → ∀ binding, a.binding = some binding →
    r'.engines[binding.engineId]? = r.engines[binding.engineId]?

theorem Adapter.stored_of_binding {a : EngineAdapter} {binding : Binding}
    (h : a.binding = some binding) (r : Registry) :
    (engine a).stored r = r.engines[binding.engineId]?.map Engine.contents := by
  simp only [stored, h, Option.bind_eq_bind, Option.bind_some]
  cases r.engines[binding.engineId]? <;> rfl

theorem Adapter.stored_of_none {a : EngineAdapter} (h : a.binding = none) (r : Registry) :
    (engine a).stored r = none := by
  simp only [stored, h]
  rfl

/-- The data of the adapters has not changed. -/
theorem Untouched.stored_eq {r r' : Registry} {adapters : List Adapter}
    (h : Untouched r r' adapters) {a : Adapter} (ha : a ∈ adapters) :
    a.stored r' = a.stored r := by
  cases a with
  | basic a => rfl
  | engine a =>
    cases hbinding : a.binding with
    | none => rw [Adapter.stored_of_none hbinding, Adapter.stored_of_none hbinding]
    | some binding =>
      rw [Adapter.stored_of_binding hbinding, Adapter.stored_of_binding hbinding,
        h.engines_eq a ha binding hbinding]

theorem Untouched.of_agreesButJournal {r r' : Registry} (h : r.AgreesButJournal r')
    (adapters : List Adapter) : Untouched r r' adapters := by
  obtain ⟨journal, rfl⟩ := h
  exact ⟨⟨rfl, fun _ => rfl⟩, fun _ _ _ _ => rfl⟩

theorem Untouched.trans {r r' r'' : Registry} {adapters : List Adapter}
    (h : Untouched r r' adapters) (h' : Untouched r' r'' adapters) : Untouched r r'' adapters where
  toSameSetup := h.toSameSetup.trans h'.toSameSetup
  engines_eq a ha binding hbinding :=
    (h'.engines_eq a ha binding hbinding).trans (h.engines_eq a ha binding hbinding)

namespace Exact

variable {r r' : Registry} {adapters adapters' others : List Adapter} {a : EngineAdapter}

theorem perm (h : Exact r adapters) (hperm : adapters.Perm adapters') : Exact r adapters' where
  counts := holders_perm hperm ▸ h.counts
  knows a ha := h.knows a (hperm.mem_iff.2 ha)

theorem of_agreesButJournal (h : Exact r adapters) (hagrees : r.AgreesButJournal r') :
    Exact r' adapters := by
  obtain ⟨journal, rfl⟩ := hagrees
  exact ⟨⟨h.counts.names_eq, h.counts.opens, h.counts.counts, h.counts.serves, h.counts.apart⟩,
    h.knows⟩

/-- Adapters that hold no reference come and go as they like. -/
theorem cons_idle (h : Exact r others) (hbinding : a.binding = none) (hknows : r.Knows a) :
    Exact r (.engine a :: others) := by
  have hsame : holders (.engine a :: others) = holders others := by
    funext name
    simp [holders, Adapter.holds, hbinding]
  refine ⟨hsame ▸ h.counts, fun b hb => ?_⟩
  rcases List.mem_cons.1 hb with heq | hb
  · cases heq
    exact hknows
  · exact h.knows b hb

theorem of_cons_idle (h : Exact r (.engine a :: others)) (hbinding : a.binding = none) :
    Exact r others := by
  have hsame : holders (.engine a :: others) = holders others := by
    funext name
    simp [holders, Adapter.holds, hbinding]
  exact ⟨hsame ▸ h.counts, fun b hb => h.knows b (List.mem_cons_of_mem _ hb)⟩

theorem holders_cons_self {binding : Binding} (hbinding : a.binding = some binding) :
    holders (.engine a :: others) a.handle = holders others a.handle + 1 := by
  simp [holders, Adapter.holds, hbinding]

theorem holders_cons_of_ne {name : String} (hname : name ≠ a.handle) :
    holders (.engine a :: others) name = holders others name := by
  simp [holders, Adapter.holds, Ne.symm hname]

/-- An adapter that holds a reference is among the holders. -/
theorem holders_pos {name : String} (hmem : .engine a ∈ adapters) (hbinding : a.binding.isSome)
    (hname : a.handle = name) : 0 < holders adapters name := by
  refine List.countP_pos_iff.2 ⟨_, hmem, ?_⟩
  simp [Adapter.holds, hbinding, hname]

/-! ### Initialized and no longer initialized -/

theorem init (h : Exact r (.engine a :: others)) :
    Exact (a.init.run r).2 (.engine (a.init.run r).1.2 :: others) ∧
      Untouched r (a.init.run r).2 others := by
  obtain ⟨x, hfind, hkind, -⟩ := h.knows a List.mem_cons_self
  have hinit := a.initialization r
  generalize a.init.run r = outcome at hinit
  cases hinit with
  | refused _ journal _ =>
    exact ⟨h.of_agreesButJournal ⟨journal, rfl⟩, .of_agreesButJournal ⟨journal, rfl⟩ others⟩
  | @unavailable _ _ acquired journal _ _ hacquire =>
    have hagrees : r.AgreesButJournal { acquired with journal } :=
      (h.counts.acquire_error hfind hacquire).trans ⟨journal, rfl⟩
    exact ⟨h.of_agreesButJournal hagrees, .of_agreesButJournal hagrees others⟩
  | @bound format id acquired journal hbinding hformat hacquire =>
    let bound : EngineAdapter := { a with binding := some (format.bind id) }
    have hidle := h.of_cons_idle hbinding
    have hacquired : r.Acquired a.handle x (holders (.engine bound :: others)) id acquired :=
      hidle.counts.acquire hfind (fun other hother => holders_cons_of_ne hother)
        (holders_cons_self rfl) hacquire
    have hexact : Exact acquired (.engine bound :: others) := by
      refine ⟨hacquired.counts, fun b hb => ?_⟩
      rcases List.mem_cons.1 hb with heq | hb
      · cases heq
        obtain ⟨handle, hfind', hengine⟩ := hacquired.refers
        refine ⟨{ x with handle }, hfind', hkind, ?_⟩
        rintro _ ⟨⟩
        exact ⟨Format.kind_bind_of_select? hformat id,
          hengine.trans (congrArg some (format.engineId_bind id).symm)⟩
      · exact (hidle.knows b hb).acquired hacquired hfind
    obtain ⟨handle, hfind', -⟩ := hacquired.refers
    have hsetup : r.SameSetup acquired := hacquired.agrees.sameSetup hfind hfind'
    refine ⟨hexact.of_agreesButJournal ⟨journal, rfl⟩,
      ⟨hsetup.properties_eq, hsetup.openers_eq⟩, fun b hb binding hb' => ?_⟩
    -- An engine that is referred to is there, and stays what it is.
    obtain ⟨y, hy, -, hbound⟩ := hidle.knows b hb
    obtain ⟨engine, hkeeps, -⟩ := h.counts.serves _ y hy _ (hbound binding hb').2
    exact (hacquired.keeps _ engine hkeeps).trans hkeeps.symm

/-- Dropping the reference of an adapter. -/
theorem release (h : Exact r (.engine a :: others)) {binding : Binding}
    (hbinding : a.binding = some binding) :
    ((Registry.release a.handle).run r).1 = .ok () ∧
      Exact ((Registry.release a.handle).run r).2
        (.engine { a with binding := none } :: others) ∧
      Untouched r ((Registry.release a.handle).run r).2 others := by
  obtain ⟨x, hfind, hkind, -⟩ := h.knows a List.mem_cons_self
  have hreleased : r.Released a.handle x (holders others) ((Registry.release a.handle).run r) :=
    h.counts.release hfind (fun other hother => (holders_cons_of_ne hother).symm)
      (holders_cons_self hbinding)
  have hothers : Exact ((Registry.release a.handle).run r).2 others := by
    refine ⟨hreleased.counts, fun b hb => ?_⟩
    exact (h.knows b (List.mem_cons_of_mem _ hb)).released hreleased hfind (holders_pos hb)
  obtain ⟨handle, hfind', -⟩ := hreleased.refers
  refine ⟨hreleased.ok, hothers.cons_idle rfl (.of_idle hfind' hkind rfl),
    hreleased.agrees.sameSetup hfind hfind', fun b hb binding' hb' => ?_⟩
  obtain ⟨y, hy, -, hbound⟩ := h.knows b (List.mem_cons_of_mem _ hb)
  by_cases hname : b.handle = a.handle
  · obtain ⟨handle, -, hkept⟩ := hreleased.refers
    rw [(hkept (holders_pos hb (hb' ▸ rfl) hname)).2]
  · exact hreleased.agrees.engines_eq b.handle hname y hy _ (hbound binding' hb').2

theorem cleanup (h : Exact r (.engine a :: others)) :
    Exact (a.cleanup.run r).2 (.engine (a.cleanup.run r).1.2 :: others) ∧
      Untouched r (a.cleanup.run r).2 others := by
  cases hbinding : a.binding with
  | none =>
    rw [EngineAdapter.cleanup_of_none hbinding]
    exact ⟨h.of_agreesButJournal ⟨_, rfl⟩, .of_agreesButJournal ⟨_, rfl⟩ others⟩
  | some binding =>
    obtain ⟨clicked, hclicked, hresult, hafter⟩ := EngineAdapter.cleanup_of_binding hbinding r
    obtain ⟨-, hexact, huntouched⟩ := (h.of_agreesButJournal hclicked).release hbinding
    rw [hresult]
    exact ⟨hexact.of_agreesButJournal hafter, ((Untouched.of_agreesButJournal hclicked others).trans
      huntouched).trans (.of_agreesButJournal hafter others)⟩

/-- An adapter that goes away leaves behind what one without a reference does. -/
theorem abandon_bound (h : Exact r (.engine a :: others)) {binding : Binding}
    (hbinding : a.binding = some binding) :
    Exact (a.abandon.run r).2 (.engine { a with binding := none } :: others) ∧
      Untouched r (a.abandon.run r).2 others := by
  obtain ⟨logged, hlogged, hafter⟩ := EngineAdapter.abandon_of_binding hbinding r
  obtain ⟨-, hexact, huntouched⟩ := (h.of_agreesButJournal hlogged).release hbinding
  exact ⟨hexact.of_agreesButJournal hafter,
    ((Untouched.of_agreesButJournal hlogged others).trans huntouched).trans
      (.of_agreesButJournal hafter others)⟩

theorem abandon (h : Exact r (.engine a :: others)) :
    Exact (a.abandon.run r).2 others ∧ Untouched r (a.abandon.run r).2 others := by
  cases hbinding : a.binding with
  | none =>
    rw [EngineAdapter.abandon_of_none hbinding]
    exact ⟨h.of_cons_idle hbinding, .of_agreesButJournal (.refl r) others⟩
  | some binding =>
    obtain ⟨hexact, huntouched⟩ := h.abandon_bound hbinding
    exact ⟨hexact.of_cons_idle rfl, huntouched⟩

/-! ### One reference more or less -/

theorem refs?_eq (h : Exact r adapters) (hmem : .engine a ∈ adapters) :
    r.refs? a.handle = some (holders adapters a.handle) := by
  obtain ⟨x, hfind, -⟩ := h.knows a hmem
  rw [Registry.refs?, hfind]
  exact congrArg some (h.counts.counts _ x hfind).refs_eq

/-- Where the registries count exactly, a binding is one reference. -/
theorem oneMore (h : Exact r (.engine { a with binding := none } :: others)) {binding : Binding}
    (h' : Exact r' (.engine { a with binding := some binding } :: others)) :
    Registry.OneMore a.handle r r' := by
  have hfewer := h.refs?_eq List.mem_cons_self
  have hmore := h'.refs?_eq List.mem_cons_self
  have hidle : holders (.engine { a with binding := none } :: others) a.handle =
      holders others a.handle := by
    simp [holders, Adapter.holds]
  rw [hidle] at hfewer
  rw [holders_cons_self rfl] at hmore
  exact ⟨_, hfewer, hmore⟩

/-- An initialization is accepted only of an adapter without a binding, which it binds. -/
theorem init_accepted (h : Exact r (.engine a :: others)) (hok : (a.init.run r).1.1 = .ok ()) :
    a.binding = none ∧ (∃ binding, (a.init.run r).1.2 = { a with binding := some binding }) ∧
      Registry.OneMore a.handle r (a.init.run r).2 := by
  have hexact := h.init.1
  have hinit := a.initialization r
  generalize a.init.run r = outcome at hexact hok hinit ⊢
  cases hinit with
  | refused => cases hok
  | unavailable => cases hok
  | bound journal hbinding _ _ =>
    have hidle : Exact r (.engine { a with binding := none } :: others) := by rwa [← hbinding]
    exact ⟨hbinding, ⟨_, rfl⟩, hidle.oneMore hexact⟩

/-- An adapter with a binding is cleaned up without failure, and without it there is one reference
less. -/
theorem cleanup_accepted (h : Exact r (.engine a :: others)) {binding : Binding}
    (hbinding : a.binding = some binding) :
    (a.cleanup.run r).1 = (.ok (), { a with binding := none }) ∧
      Registry.OneMore a.handle (a.cleanup.run r).2 r := by
  obtain ⟨clicked, hclicked, hresult, -⟩ := EngineAdapter.cleanup_of_binding hbinding r
  obtain ⟨hreleased, -⟩ := (h.of_agreesButJournal hclicked).release hbinding
  have hbound : Exact r (.engine { a with binding := some binding } :: others) := by
    rwa [← hbinding]
  have hidle := h.cleanup.1
  rw [hresult] at hidle
  exact ⟨by rw [hresult, hreleased], hidle.oneMore hbound⟩

/-- So there is when it goes away. -/
theorem abandon_accepted (h : Exact r (.engine a :: others)) {binding : Binding}
    (hbinding : a.binding = some binding) : Registry.OneMore a.handle (a.abandon.run r).2 r := by
  have hbound : Exact r (.engine { a with binding := some binding } :: others) := by
    rwa [← hbinding]
  exact (h.abandon_bound hbinding).1.oneMore hbound

/-! ### Operations -/

/-- The engine of an initialized adapter serves. -/
theorem serves (h : Exact r adapters) (hmem : .engine a ∈ adapters) {binding : Binding}
    (hbinding : a.binding = some binding) : r.Serves binding.engineId binding.kind := by
  obtain ⟨x, hfind, hkind, hbound⟩ := h.knows a hmem
  obtain ⟨hsort, hengine⟩ := hbound binding hbinding
  rw [hsort, ← hkind]
  exact h.counts.serves _ x hfind _ hengine

theorem perform [Machine] (h : Exact r adapters) (hmem : .engine a ∈ adapters) (op : Operation) :
    Exact (a.perform op |>.run r).2 adapters ∧ r.SameSetup (a.perform op |>.run r).2 := by
  cases hbinding : a.binding with
  | none =>
    have hagrees := (EngineAdapter.perform_of_binding_none hbinding op r).2
    exact ⟨h.of_agreesButJournal hagrees, (hagrees.beside 0).sameSetup⟩
  | some binding =>
    have hserves := h.serves hmem hbinding
    obtain ⟨-, hagrees, hserves'⟩ := EngineAdapter.perform_unharmed hbinding hserves op
    refine ⟨⟨h.counts.of_agreesBeside hagrees fun kind hkind => ?_,
      fun b hb => (h.knows b hb).of_eq hagrees.registrations_eq⟩, hagrees.sameSetup⟩
    rwa [hkind.kind_unique hserves]

end Exact

/-! ## Fleets -/

/-- Adapters on a registry. -/
structure Fleet where
  registry : Registry
  adapters : List Adapter

/-- What can happen to a fleet: an adapter is made, or something is done with the one at a place. -/
inductive Move where
  | create (name : String)
  | init (place : Nat)
  | cleanup (place : Nat)
  | perform (place : Nat) (op : Operation)
  | drop (place : Nat)

/-- The place of the adapter that something is done with. -/
def Move.place? : Move → Option Nat
  | create _ => none
  | init place | cleanup place | perform place _ | drop place => some place

/-- Whether a move performs no operation. -/
def Move.IsTransition : Move → Prop
  | perform .. => False
  | _ => True

namespace Fleet

/-- No adapter on a registry that knows the engines in memory. -/
def start (p : Properties) : Fleet := ⟨.standard p, []⟩

/-- Let an adapter act on the registry: the adapters in its place afterwards. -/
def act (f : Fleet) (place : Nat) (use : Adapter → RegistryM (List Adapter)) : Fleet :=
  match f.adapters[place]? with
  | none => f
  | some a =>
    let (left, registry) := (use a).run f.registry
    ⟨registry, f.adapters.take place ++ left ++ f.adapters.drop (place + 1)⟩

def step [Machine] (f : Fleet) : Move → Fleet
  | .create name =>
    match (Adapter.create name).run f.registry with
    | (.error _, registry) => ⟨registry, f.adapters⟩
    | (.ok a, registry) => ⟨registry, f.adapters ++ [a]⟩
  | .init place => f.act place fun a => do return [(← a.init).2]
  | .cleanup place => f.act place fun a => do return [(← a.cleanup).2]
  | .perform place op => f.act place fun a => do
    discard (a.perform op)
    return [a]
  | .drop place => f.act place fun a => do
    a.abandon
    return []

def run [Machine] (f : Fleet) (moves : List Move) : Fleet := moves.foldl step f

variable {f : Fleet} {place : Nat} {use : Adapter → RegistryM (List Adapter)}

/-- The adapters besides the one at a place. -/
def others (f : Fleet) (place : Nat) : List Adapter := f.adapters.eraseIdx place

/-- What an adapter keeps for it and the others, whatever their order, it keeps in a fleet. -/
theorem act_keeps {Keeps : Registry → List Adapter → Prop}
    (hperm : ∀ {r adapters adapters'}, Keeps r adapters → adapters.Perm adapters' →
      Keeps r adapters') (h : Keeps f.registry f.adapters)
    (huse : ∀ a, Keeps f.registry (a :: f.others place) →
      Keeps ((use a).run f.registry).2 (((use a).run f.registry).1 ++ f.others place)) :
    Keeps (f.act place use).registry (f.act place use).adapters := by
  cases ha : f.adapters[place]? with
  | none =>
    simp only [act, ha]
    exact h
  | some a =>
    obtain ⟨hlt, rfl⟩ := List.getElem?_eq_some_iff.1 ha
    have hbefore : f.adapters.Perm (f.adapters[place] :: f.others place) :=
      (List.getElem_cons_eraseIdx_perm hlt).symm
    have hafter := huse _ (hperm h hbefore)
    simp only [act, ha]
    refine hperm hafter ?_
    rw [others, List.eraseIdx_eq_take_drop_succ, ← List.append_assoc]
    exact List.perm_append_comm.append_right _

/-- What an adapter does that leaves the data of the others alone does so in a fleet. -/
theorem untouched_act (h : Exact f.registry f.adapters)
    (huse : ∀ a, Exact f.registry (a :: f.others place) →
      Untouched f.registry ((use a).run f.registry).2 (f.others place)) :
    Untouched f.registry (f.act place use).registry (f.others place) ∧
      ∀ b ∈ f.others place, b ∈ (f.act place use).adapters := by
  cases ha : f.adapters[place]? with
  | none =>
    simp only [act, ha]
    exact ⟨.of_agreesButJournal (.refl _) _, fun b hb => List.mem_of_mem_eraseIdx hb⟩
  | some a =>
    obtain ⟨hlt, rfl⟩ := List.getElem?_eq_some_iff.1 ha
    have hbefore : f.adapters.Perm (f.adapters[place] :: f.others place) :=
      (List.getElem_cons_eraseIdx_perm hlt).symm
    simp only [act, ha]
    refine ⟨huse _ (h.perm hbefore), fun b hb => ?_⟩
    rw [others, List.eraseIdx_eq_take_drop_succ] at hb
    show b ∈ f.adapters.take place ++ _ ++ f.adapters.drop (place + 1)
    rcases List.mem_append.1 hb with hb | hb
    · exact List.mem_append_left _ (List.mem_append_left _ hb)
    · exact List.mem_append_right _ hb

end Fleet

/-! ### Adapters that store nothing -/

namespace BasicAdapter

variable (b : BasicAdapter) {r : Registry}

theorem init_agrees : r.AgreesButJournal (b.init.run r).2 := by
  obtain ⟨_ | _⟩ := b <;> exact ⟨_, rfl⟩

theorem cleanup_agrees : r.AgreesButJournal (b.cleanup.run r).2 := by
  obtain ⟨_ | _⟩ := b <;> exact ⟨_, rfl⟩

theorem perform_agrees (op : Operation) : r.AgreesButJournal (b.perform op |>.run r).2 := by
  obtain ⟨_ | _⟩ := b <;> exact ⟨_, rfl⟩

end BasicAdapter

theorem Exact.cons_basic_iff {r : Registry} {b : BasicAdapter} {others : List Adapter} :
    Exact r (.basic b :: others) ↔ Exact r others := by
  have hsame : holders (.basic b :: others) = holders others := by
    funext name
    simp [holders, Adapter.holds]
  constructor
  · exact fun h => ⟨hsame ▸ h.counts, fun a ha => h.knows a (List.mem_cons_of_mem _ ha)⟩
  · refine fun h => ⟨hsame ▸ h.counts, fun a ha => h.knows a ?_⟩
    simpa using ha

/-- What an adapter that stores nothing does leaves the counts exact. -/
theorem Exact.basic {r r' : Registry} {b : BasicAdapter} {others : List Adapter}
    (h : Exact r (.basic b :: others)) (hagrees : r.AgreesButJournal r') (b' : BasicAdapter) :
    Exact r' (.basic b' :: others) :=
  cons_basic_iff.2 ((cons_basic_iff.1 h).of_agreesButJournal hagrees)

namespace Fleet

variable {f : Fleet}

/-- Making an adapter changes nothing but the journal, and the adapter holds no reference. -/
theorem step_create [Machine] (f : Fleet) (name : String) :
    ∃ r made, f.step (.create name) = ⟨r, f.adapters ++ made⟩ ∧ f.registry.AgreesButJournal r ∧
      (∀ a, .engine a ∈ made → a.binding = none) ∧
      ∀ adapters, Exact f.registry adapters → Exact f.registry (made ++ adapters) := by
  by_cases hbasic : name = "basic"
  · subst hbasic
    exact ⟨_, [.basic ⟨false⟩], rfl, ⟨_, rfl⟩, by simp, fun _ h => Exact.cons_basic_iff.2 h⟩
  · cases hfind : f.registry.find? name with
    | none =>
      have hcreate : (Adapter.create name).run f.registry =
          (.error (.raised (.configuration (.unknownAdapter name f.registry.names))),
            f.registry) := by
        simp only [Adapter.create, hbasic, if_false, StateT.run_bind, StateT.run_get, pure_bind]
        rw [hfind]
        rfl
      refine ⟨f.registry, [], ?_, .refl _, by simp, fun _ h => h⟩
      rw [step, hcreate, List.append_nil]
    | some x =>
      obtain ⟨journal, hcreate⟩ := Adapter.create_eq hbasic hfind
      refine ⟨_, [.engine ⟨name, name, x.opener.kind, none⟩], ?_, ⟨journal, rfl⟩, by simp,
        fun _ h => h.cons_idle rfl (.of_idle hfind rfl rfl)⟩
      rw [step, hcreate]

/-- Every move keeps the counts exact. -/
theorem exact_step [Machine] (h : Exact f.registry f.adapters) (m : Move) :
    Exact (f.step m).registry (f.step m).adapters := by
  cases m with
  | create name =>
    obtain ⟨r, made, hstep, hagrees, -, hmade⟩ := f.step_create name
    rw [hstep]
    exact ((hmade _ h).of_agreesButJournal hagrees).perm List.perm_append_comm
  | init place =>
    refine act_keeps Exact.perm h fun a ha => ?_
    cases a with
    | basic b => exact ha.basic b.init_agrees _
    | engine a => exact ha.init.1
  | cleanup place =>
    refine act_keeps Exact.perm h fun a ha => ?_
    cases a with
    | basic b => exact ha.basic b.cleanup_agrees _
    | engine a => exact ha.cleanup.1
  | perform place op =>
    refine act_keeps Exact.perm h fun a ha => ?_
    cases a with
    | basic b => exact ha.basic (b.perform_agrees op) _
    | engine a => exact (ha.perform List.mem_cons_self op).1
  | drop place =>
    refine act_keeps Exact.perm h fun a ha => ?_
    cases a with
    | basic b => exact Exact.cons_basic_iff.1 ha
    | engine a => exact ha.abandon.1

theorem exact_run [Machine] (h : Exact f.registry f.adapters) (moves : List Move) :
    Exact (f.run moves).registry (f.run moves).adapters := by
  induction moves generalizing f with
  | nil => exact h
  | cons m moves ih => exact ih (exact_step h m)

/-! ### The engines in memory -/

theorem serves_of_memory {p : Properties} {engine : Engine} (h : Opener.memory.run p = .ok engine) :
    engine.Serves := by
  rw [Opener.memory_ok h]
  exact ⟨rfl, rfl⟩

theorem serves_of_memoryTuples {p : Properties} {engine : Engine}
    (h : Opener.memoryTuples.run p = .ok engine) : engine.Serves := by
  cases hcount : p.fieldCount with
  | ok fieldCount =>
    rw [(Opener.memoryTuples_ok hcount h).1]
    exact rfl
  | error cause =>
    simp only [Opener.run, Opener.memoryTuples] at h
    cases hoptions : EngineOptions.ofProperties? p "tuple" with
    | error cause => rw [hoptions] at h; cases h
    | ok options => rw [hoptions, hcount] at h; cases h

/-- What the registry of the engines in memory knows at first. -/
theorem fresh_of_find?_standard {p : Properties} {name : String} {x : Registration}
    (h : (Registry.standard p).find? name = some x) :
    x.handle = .fresh name ∧ (x.opener = .memory ∨ x.opener = .memoryTuples) := by
  have hname : x.name = name := by simpa using List.find?_some h
  have hmem : x ∈ (Registry.standard p).registrations := List.mem_of_find?_eq_some h
  have hregistrations : (Registry.standard p).registrations =
      [⟨"memory", .memory, .fresh "memory"⟩, ⟨"tuple", .memoryTuples, .fresh "tuple"⟩] := rfl
  rw [hregistrations] at hmem
  subst hname
  rcases List.mem_cons.1 hmem with rfl | hmem
  · exact ⟨rfl, .inl rfl⟩
  · cases List.mem_singleton.1 hmem
    exact ⟨rfl, .inr rfl⟩

theorem exact_start (p : Properties) : Exact (start p).registry (start p).adapters := by
  refine ⟨⟨?_, ?_, ?_, ?_, ?_⟩, nofun⟩
  · rfl
  · intro name x hx engine hrun
    rcases (fresh_of_find?_standard hx).2 with hopener | hopener
    · exact serves_of_memory (hopener ▸ hrun)
    · exact serves_of_memoryTuples (hopener ▸ hrun)
  · intro name x hx
    rw [(fresh_of_find?_standard hx).1]
    exact ⟨rfl, by simp [SharedHandle.isOpen, SharedHandle.fresh, start, holders], rfl⟩
  · intro name x hx id hid
    rw [(fresh_of_find?_standard hx).1] at hid
    cases hid
  · intro name x hx other y hy id hid
    rw [(fresh_of_find?_standard hx).1] at hid
    cases hid

/-- A move that is not an operation leaves alone what initialized adapters at other places store. -/
theorem untouched_step [Machine] (h : Exact f.registry f.adapters) {m : Move} (hm : m.IsTransition)
    {place : Nat} {a : Adapter} (ha : f.adapters[place]? = some a)
    (hplace : m.place? ≠ some place) :
    a ∈ (f.step m).adapters ∧ a.stored (f.step m).registry = a.stored f.registry := by
  have hother : ∀ place', place' ≠ place → a ∈ f.others place' := fun place' hne =>
    List.mem_eraseIdx_iff_getElem?.2 ⟨place, Ne.symm hne, ha⟩
  have hact : ∀ {place' : Nat} {use : Adapter → RegistryM (List Adapter)}, place' ≠ place →
      (∀ b, Exact f.registry (b :: f.others place') →
        Untouched f.registry ((use b).run f.registry).2 (f.others place')) →
      a ∈ (f.act place' use).adapters ∧
        a.stored (f.act place' use).registry = a.stored f.registry := by
    intro place' use hne huse
    obtain ⟨huntouched, hmem⟩ := untouched_act h huse
    exact ⟨hmem a (hother place' hne), huntouched.stored_eq (hother place' hne)⟩
  cases m with
  | create name =>
    obtain ⟨r, made, hstep, hagrees, -⟩ := f.step_create name
    rw [hstep]
    have hmem : a ∈ f.adapters := List.mem_of_getElem? ha
    exact ⟨List.mem_append_left made hmem, (Untouched.of_agreesButJournal hagrees _).stored_eq hmem⟩
  | init place' =>
    refine hact (fun heq => hplace (congrArg some heq)) fun b hb => ?_
    cases b with
    | basic b => exact .of_agreesButJournal b.init_agrees _
    | engine b => exact hb.init.2
  | cleanup place' =>
    refine hact (fun heq => hplace (congrArg some heq)) fun b hb => ?_
    cases b with
    | basic b => exact .of_agreesButJournal b.cleanup_agrees _
    | engine b => exact hb.cleanup.2
  | drop place' =>
    refine hact (fun heq => hplace (congrArg some heq)) fun b hb => ?_
    cases b with
    | basic b => exact .of_agreesButJournal (.refl _) _
    | engine b => exact hb.abandon.2
  | perform => cases hm

/-! ### Lifecycles -/

/-- The outcome is a refusal, and nothing but the journal has changed. -/
def Refused {α : Type} (r : Registry) (outcome : Except Failure α) (after : Registry) : Prop :=
  (∃ cause, outcome = .error (.raised (.configuration cause))) ∧ r.AgreesButJournal after

/-- The handle of an engine has one reference per initialized adapter, and the engine is open while
there are any. -/
theorem handle_counts (h : Exact f.registry f.adapters) {name : String}
    (hname : name = "memory" ∨ name = "tuple") :
    ∃ x, f.registry.find? name = some x ∧ x.handle.Counts (holders f.adapters name) := by
  have hmem : name ∈ f.registry.registrations.map Registration.name := by
    rw [h.counts.names_eq]
    simpa using hname
  obtain ⟨y, hy, rfl⟩ := List.mem_map.1 hmem
  have hsome : (f.registry.find? y.name).isSome := List.find?_isSome.2 ⟨y, hy, by simp⟩
  obtain ⟨x, hfind⟩ := Option.isSome_iff_exists.1 hsome
  exact ⟨x, hfind, h.counts.counts y.name x hfind⟩

theorem init_error (h : Exact f.registry f.adapters) {a : EngineAdapter}
    (hmem : .engine a ∈ f.adapters) {failure : Failure}
    (hfails : (a.init.run f.registry).1.1 = .error failure) :
    (a.init.run f.registry).1.2 = a ∧ f.registry.AgreesButJournal (a.init.run f.registry).2 := by
  obtain ⟨x, hfind, -⟩ := h.knows a hmem
  have hinit := a.initialization f.registry
  generalize a.init.run f.registry = outcome at hfails hinit ⊢
  cases hinit with
  | refused _ journal _ => exact ⟨rfl, journal, rfl⟩
  | unavailable journal _ _ hacquire =>
    exact ⟨rfl, (h.counts.acquire_error hfind hacquire).trans ⟨journal, rfl⟩⟩
  | bound => cases hfails

/-- After any moves of any number of adapters on the engines in memory:
the handle of either engine has as many references as adapters of its name are initialized, and the
engine is open exactly while there are any, having been opened once more than closed;
what an adapter is asked for before it is initialized, or a second initialization, is refused and
changes nothing but the journal, as does an initialization that fails; without a format the openers
make no difference, and with one they alone do where no engine is open;
an initialization that is accepted binds the adapter and takes one reference, and cleaning it up,
which does not fail, or its going away gives back one;
the engine of an initialized adapter is open, and no operation fails because it is closed;
and what an initialized adapter stores outlasts every move at another place that is no operation. -/
theorem lifecycle_exact [Machine] (p : Properties) (moves : List Move) :
    let f := (start p).run moves
    let r := f.registry
    (∀ name, name = "memory" ∨ name = "tuple" → ∃ x, r.find? name = some x ∧
      x.handle.refs = holders f.adapters name ∧
      (x.handle.isOpen = true ↔ 0 < holders f.adapters name) ∧
      x.handle.opens = x.handle.closes + if x.handle.isOpen then 1 else 0) ∧
    ∀ place a, f.adapters[place]? = some (.engine a) →
      (a.binding = none →
        (∀ op, Refused r ((a.perform op).run r).1 ((a.perform op).run r).2) ∧
        (a.cleanup.run r).1.2 = a ∧ Refused r (a.cleanup.run r).1.1 (a.cleanup.run r).2) ∧
      (a.binding ≠ none →
        (a.init.run r).1.2 = a ∧ Refused r (a.init.run r).1.1 (a.init.run r).2) ∧
      (∀ failure, (a.init.run r).1.1 = .error failure →
        (a.init.run r).1.2 = a ∧ r.AgreesButJournal (a.init.run r).2) ∧
      ((a.init.run r).1.1 = .ok () → a.binding = none ∧
        (∃ binding, (a.init.run r).1.2 = { a with binding := some binding }) ∧
        Registry.OneMore a.handle r (a.init.run r).2) ∧
      (∀ format x, a.binding = none → a.configuredFormat? r.properties = .ok format →
        r.find? a.handle = some x → ((a.init.run r).1.1 = .ok () ↔
          x.handle.isOpen = true ∨ ∃ engine, x.opener.run r.properties = .ok engine)) ∧
      (∀ (s : Registry) cause, a.binding = none → a.configuredFormat? s.properties = .error cause →
        a.init.run s = ((.error (.raised (.configuration cause)), a),
          { s with journal := .click .adapterError :: s.journal })) ∧
      (a.binding ≠ none →
        (a.cleanup.run r).1 = (.ok (), { a with binding := none }) ∧
        Registry.OneMore a.handle (a.cleanup.run r).2 r ∧
        Registry.OneMore a.handle (a.abandon.run r).2 r) ∧
      (∀ binding, a.binding = some binding →
        (∃ engine, r.engines[binding.engineId]? = some engine ∧ engine.isOpen = true) ∧
        ∀ op failure name, ((a.perform op).run r).1 = .error failure →
          failure ≠ .raised (.engine (.closed name))) ∧
      (a.binding ≠ none → ∀ m : Move, m.IsTransition → m.place? ≠ some place →
        .engine a ∈ (f.step m).adapters ∧
          (Adapter.engine a).stored (f.step m).registry = (Adapter.engine a).stored r) := by
  intro f r
  have h : Exact r f.adapters := exact_run (exact_start p) moves
  refine ⟨fun name hname => ?_, fun place a ha => ?_⟩
  · obtain ⟨x, hfind, hcounts⟩ := handle_counts h hname
    exact ⟨x, hfind, hcounts.refs_eq, hcounts.isOpen_iff, hcounts.opens_eq⟩
  · have hmem : .engine a ∈ f.adapters := List.mem_of_getElem? ha
    have hothers : Exact r (.engine a :: f.others place) := by
      obtain ⟨hlt, heq⟩ := List.getElem?_eq_some_iff.1 ha
      exact h.perm (heq ▸ (List.getElem_cons_eraseIdx_perm hlt).symm)
    refine ⟨fun hnone => ⟨fun op => ?_, ?_⟩, fun hsome => ?_, fun failure hfails =>
      init_error h hmem hfails, hothers.init_accepted, fun format x hnone hformat hfind =>
      EngineAdapter.init_eq_ok_iff hnone hformat hfind, fun s cause hnone hformat =>
      EngineAdapter.init_of_format_error hnone hformat, fun hsome => ?_, fun binding hbinding => ?_,
      fun _ m hm hplace => untouched_step h hm ha hplace⟩
    · obtain ⟨hrefused, hagrees⟩ := EngineAdapter.perform_of_binding_none hnone op r
      exact ⟨⟨_, hrefused⟩, hagrees⟩
    · rw [EngineAdapter.cleanup_of_none hnone]
      exact ⟨rfl, ⟨_, rfl⟩, _, rfl⟩
    · obtain ⟨binding, hbinding⟩ := Option.ne_none_iff_exists'.1 hsome
      rw [EngineAdapter.init_of_binding hbinding]
      exact ⟨rfl, ⟨_, rfl⟩, _, rfl⟩
    · obtain ⟨binding, hbinding⟩ := Option.ne_none_iff_exists'.1 hsome
      obtain ⟨hcleaned, hless⟩ := hothers.cleanup_accepted hbinding
      exact ⟨hcleaned, hless, hothers.abandon_accepted hbinding⟩
    · have hserves := h.serves hmem hbinding
      obtain ⟨engine, hkeeps, -, hengine⟩ := id hserves
      refine ⟨⟨engine, hkeeps, hengine.isOpen⟩, fun op failure name hfailure => ?_⟩
      have hover := (EngineAdapter.perform_unharmed hbinding hserves op).overRows failure hfailure
      rintro rfl
      exact hover

section

attribute [local instance] Machine.largest

/-- Two adapters of the engine in memory, of which the first one is initialized. -/
def twoAdapters : Fleet :=
  (start (.ofList [("fieldcount", "2"), ("memory.storage_dir", "/memory")])).run
    [.create "memory", .create "memory", .init 0]

/-- The second adapter takes another reference, and the first one gives its own back. -/
theorem lifecycle_exact_two :
    let r := twoAdapters.registry
    r.refs? "memory" = some 1 ∧
    ∃ a b, twoAdapters.adapters = [.engine a, .engine b] ∧
      (a.cleanup.run r).1 = (.ok (), { a with binding := none }) ∧
      (a.cleanup.run r).2.refs? "memory" = some 0 ∧
      (b.init.run r).1.1 = .ok () ∧
      (∃ binding, (b.init.run r).1.2 = { b with binding := some binding }) ∧
      (b.init.run r).2.refs? "memory" = some 2 := by
  intro r
  let a : EngineAdapter := ⟨"memory", "memory", .keyValue, some (.keyValue 0 ⟨2, false⟩)⟩
  let b : EngineAdapter := ⟨"memory", "memory", .keyValue, none⟩
  have hadapters : twoAdapters.adapters = [.engine a, .engine b] := rfl
  have hrefs : r.refs? "memory" = some 1 := rfl
  have hinits : (b.init.run r).1.1.toOption.any (fun _ => true) = true := by decide +kernel
  obtain ⟨⟨⟩, haccepted, -⟩ := exists_ok_of_any hinits
  obtain ⟨-, hplaces⟩ := lifecycle_exact (.ofList [("fieldcount", "2"),
    ("memory.storage_dir", "/memory")]) [.create "memory", .create "memory", .init 0]
  obtain ⟨-, -, -, -, -, -, hcleanup, -⟩ := hplaces 0 a (congrArg (·[0]?) hadapters)
  obtain ⟨-, -, -, hinit, -⟩ := hplaces 1 b (congrArg (·[1]?) hadapters)
  obtain ⟨hcleaned, ⟨rest, hrest, hbefore⟩, -⟩ := hcleanup (Option.some_ne_none _)
  obtain ⟨-, hbinds, refs, hheld, hmore⟩ := hinit haccepted
  cases hrefs.symm.trans hbefore
  cases hrefs.symm.trans hheld
  exact ⟨hrefs, a, b, hadapters, hcleaned, hrest, haccepted, hbinds, hmore⟩

end

end Fleet

end StoreBench
