import StoreBench.Proofs.WholeTuples
/-!
# Fleets over tuples

Whatever adapters do to a registry of the engines in memory, they do in small steps: they open and
close engines, ask them, and keep their handles. Each of these leaves every tuple of every tuple
engine whole. So after any moves of a fleet an initialized adapter for tuples finds whole tuples
only, and its operations are refused for their arguments only.
-/

namespace StoreBench

/-! ## Engines -/

namespace TupleEngine

/-- An engine, open or closed, whose tuples are tuples of a layout. -/
structure IsWhole (layout : ColumnLayout) (e : TupleEngine) : Prop where
  width_eq : e.width = layout.fieldCount + 1
  shapes : ∀ (key : Bytes) (held : Slots), e.tuples[key]? = some held → layout.Shapes key held

namespace IsWhole

variable {layout : ColumnLayout} {e : TupleEngine}

theorem shapedBy (h : e.IsWhole layout) (hopen : e.closed = false) : e.ShapedBy layout :=
  ⟨hopen, h.width_eq, h.shapes⟩

theorem of_shapedBy (h : e.ShapedBy layout) : e.IsWhole layout := ⟨h.width_eq, h.shapes⟩

theorem close (h : e.IsWhole layout) : e.close.2.IsWhole layout := by
  unfold TupleEngine.close
  split
  · exact h
  · exact ⟨h.width_eq, by simp⟩

theorem answer (h : e.IsWhole layout) (call : TupleCall) : (e.answer call).2.IsWhole layout := by
  by_cases hclosed : e.closed
  · simp only [TupleEngine.answer, hclosed, if_true]
    exact h
  · exact of_shapedBy ((h.shapedBy (Bool.eq_false_iff.2 hclosed)).serve call)

end IsWhole

end TupleEngine

theorem Opener.isWhole_of_run {opener : Opener} {p : Properties} {layout : ColumnLayout}
    (hopener : opener = .memory ∨ opener = .memoryTuples)
    (hcount : p.fieldCount = .ok layout.fieldCount) {e : TupleEngine}
    (h : opener.run p = .ok (.tuple e)) : e.IsWhole layout := by
  rcases hopener with rfl | rfl
  · cases Opener.memory_ok h
  · cases (Opener.memoryTuples_ok hcount h).1
    exact .of_shapedBy (.fresh "tuple")

/-- An engine in memory is refused for its configuration only. -/
theorem Opener.raises_configuration {opener : Opener} {p : Properties}
    (hopener : opener = .memory ∨ opener = .memoryTuples) {e : Error}
    (h : opener.run p = .error (.raised e)) : ∃ cause, e = .configuration cause := by
  rcases hopener with rfl | rfl
  · simp only [run, memory] at h
    cases hoptions : EngineOptions.ofProperties? p "memory" with
    | error cause => rw [hoptions] at h; cases h; exact ⟨cause, rfl⟩
    | ok options => rw [hoptions] at h; cases h
  · simp only [run, memoryTuples] at h
    cases hoptions : EngineOptions.ofProperties? p "tuple" with
    | error cause => rw [hoptions] at h; cases h; exact ⟨cause, rfl⟩
    | ok options =>
      cases hcount : p.fieldCount with
      | error cause => rw [hoptions, hcount] at h; cases h; exact ⟨cause, rfl⟩
      | ok n =>
        rw [hoptions, hcount] at h
        replace h : (if n + 1 < UInt64.size then
            (.ok (.fresh "tuple" (n + 1)) : Except Failure TupleEngine)
          else .error .fault).map Engine.tuple = .error (.raised e) := h
        split at h
        · cases h
        · cases h

/-! ## Steps on a registry -/

namespace Registry

/-- A registry of the engines in memory, with the properties of a layout, all of whose tuples are
tuples of the layout. -/
structure Whole (layout : ColumnLayout) (r : Registry) : Prop where
  stem_eq : r.properties.fieldStem = layout.stem
  count_eq : r.properties.fieldCount = .ok layout.fieldCount
  openers : ∀ x ∈ r.registrations, x.opener = .memory ∨ x.opener = .memoryTuples
  engines : ∀ (id : Nat) (e : TupleEngine), r.engines[id]? = some (.tuple e) → e.IsWhole layout

theorem Whole.of_agreesButJournal {layout : ColumnLayout} {r r' : Registry} (h : r.Whole layout)
    (hagrees : r.AgreesButJournal r') : r'.Whole layout := by
  obtain ⟨journal, rfl⟩ := hagrees
  exact ⟨h.stem_eq, h.count_eq, h.openers, h.engines⟩

/-- The step leaves tuples whole. -/
def KeepsWhole {α : Type} (layout : ColumnLayout) (step : RegistryM α) : Prop :=
  ∀ r : Registry, r.Whole layout → (step.run r).2.Whole layout

namespace KeepsWhole

variable {α β : Type} {layout : ColumnLayout}

theorem pure (a : α) : KeepsWhole layout (Pure.pure a : RegistryM α) := fun _ h => h

theorem bind {step : RegistryM α} {next : α → RegistryM β} (h : KeepsWhole layout step)
    (hnext : ∀ a, KeepsWhole layout (next a)) : KeepsWhole layout (step >>= next) :=
  fun r hr => hnext _ _ (h r hr)

/-- What comes after a look at the registry may rely on what is seen. -/
theorem get_bind {next : Registry → RegistryM β}
    (h : ∀ r, r.Whole layout → KeepsWhole layout (next r)) : KeepsWhole layout (get >>= next) :=
  fun r hr => h r hr r hr

theorem record (event : Event) : KeepsWhole layout (Registry.record event) :=
  fun r h => h.of_agreesButJournal (record_agrees event r)

theorem setHandle (name : String) (handle : SharedHandle Nat) :
    KeepsWhole layout (Registry.setHandle name handle) := by
  intro r h
  refine ⟨h.stem_eq, h.count_eq, ?_, h.engines⟩
  intro x hx
  obtain ⟨y, hy, rfl⟩ := List.mem_map.1 hx
  have hopener := h.openers y hy
  split
  · exact hopener
  · exact hopener

theorem setEngine (id : Nat) {engine : Engine}
    (hengine : ∀ e, engine = .tuple e → e.IsWhole layout) :
    KeepsWhole layout (Registry.setEngine id engine) := by
  intro r h
  refine ⟨h.stem_eq, h.count_eq, h.openers, ?_⟩
  intro other e he
  have hset : (r.engines.set id engine)[other]? = some (.tuple e) := he
  rw [List.getElem?_set] at hset
  split at hset
  · split at hset
    · exact hengine e (Option.some.inj hset)
    · cases hset
  · exact h.engines other e hset

theorem setEngine_keyValue (id : Nat) (e : KeyValueEngine) :
    KeepsWhole layout (Registry.setEngine id (.keyValue e)) := by
  refine setEngine id ?_
  rintro _ ⟨⟩

theorem openEngine {x : Registration} (hx : x.opener = .memory ∨ x.opener = .memoryTuples) :
    KeepsWhole layout (Registry.openEngine x) := by
  intro r h
  rw [openEngine_eq]
  cases hrun : x.opener.run r.properties with
  | error failure => exact h
  | ok engine =>
    refine ⟨h.stem_eq, h.count_eq, h.openers, ?_⟩
    intro id e he
    rcases List.mem_append.1 (List.mem_of_getElem? he) with hold | hnew
    · obtain ⟨other, hother⟩ := List.getElem?_of_mem hold
      exact h.engines other e hother
    · cases List.mem_singleton.1 hnew
      exact Opener.isWhole_of_run hx h.count_eq hrun

theorem closeEngine (id : Nat) : KeepsWhole layout (Registry.closeEngine id) := by
  refine get_bind ?_
  intro r h
  split
  · exact pure _
  · exact (setEngine_keyValue id _).bind fun _ => pure _
  · next e he =>
    refine (setEngine id ?_).bind fun _ => pure _
    rintro _ ⟨⟩
    exact (h.engines id e he).close

/-- A program that asks and reports in steps that leave tuples whole is such a step. -/
theorem interpret {ι : Interface} {reply : (request : ι.Request) → RegistryM (ι.Answer request)}
    (hreply : ∀ request, KeepsWhole layout (reply request)) (p : Program ι α) :
    KeepsWhole layout (p.interpret Registry.record reply) := by
  induction p with
  | done a => exact pure a
  | note event rest ih => exact (record event).bind fun _ => ih
  | ask request rest ih => exact (hreply request).bind ih

theorem onHandle (name : String)
    (use : SharedHandle Nat → Program (lifecycle Nat) (Except Failure α × SharedHandle Nat)) :
    KeepsWhole layout (Registry.onHandle name use) := by
  refine get_bind ?_
  intro r h
  split
  · exact pure _
  · next x hfind =>
    have hx := h.openers x (List.mem_of_find?_eq_some hfind)
    have hreply : ∀ call, KeepsWhole layout (answerLifecycle x call) := by
      intro call
      cases call with
      | openEngine => exact openEngine hx
      | closeEngine id => exact closeEngine id
    refine (interpret hreply (use x.handle)).bind ?_
    intro result
    exact (setHandle name result.2).bind fun _ => pure _

theorem answerKeyValue (id : Nat) (call : KeyValueCall) :
    KeepsWhole layout (Registry.answerKeyValue id call) := by
  refine get_bind ?_
  intro r h
  split
  · next e _ =>
    refine (interpret (fun request => Empty.elim request) (e.answer call)).bind ?_
    intro answer
    exact (setEngine_keyValue id _).bind fun _ => pure _
  · exact pure _

theorem answerTuple (id : Nat) (call : TupleCall) :
    KeepsWhole layout (Registry.answerTuple id call) := by
  refine get_bind ?_
  intro r h
  split
  · next e he =>
    refine (setEngine id ?_).bind fun _ => pure _
    rintro _ ⟨⟩
    exact (h.engines id e he).answer call
  · exact pure _

end KeepsWhole

end Registry

/-! ## What adapters do -/

namespace EngineAdapter

open Registry

variable {layout : ColumnLayout} (a : EngineAdapter)

theorem keepsWhole_counted {α : Type} (result : Except Failure α) :
    KeepsWhole layout (counted result) := by
  unfold counted
  split
  · exact (KeepsWhole.record _).bind fun _ => .pure _
  · exact (KeepsWhole.pure _).bind fun _ => .pure _

theorem keepsWhole_refuse {α : Type} (cause : Misconfiguration) :
    KeepsWhole layout (refuse cause : RegistryM (Except Failure α)) :=
  keepsWhole_counted _

theorem keepsWhole_init : KeepsWhole layout a.init := by
  unfold init
  split
  · exact (keepsWhole_refuse _).bind fun _ => .pure _
  · refine KeepsWhole.get_bind ?_
    intro r _
    split
    · exact (keepsWhole_refuse _).bind fun _ => .pure _
    · refine (KeepsWhole.onHandle a.handle SharedHandle.acquire).bind ?_
      intro acquired
      refine (keepsWhole_counted acquired).bind ?_
      intro result
      split
      · exact .pure _
      · exact (KeepsWhole.record _).bind fun _ => (KeepsWhole.record _).bind fun _ => .pure _

theorem keepsWhole_cleanup : KeepsWhole layout a.cleanup := by
  unfold cleanup
  split
  · exact (keepsWhole_refuse _).bind fun _ => .pure _
  · refine (KeepsWhole.record _).bind ?_
    intro _
    refine (KeepsWhole.onHandle a.handle SharedHandle.release).bind ?_
    intro released
    exact (keepsWhole_counted released).bind fun _ => .pure _

theorem keepsWhole_abandon : KeepsWhole layout a.abandon := by
  unfold abandon
  split
  · refine (KeepsWhole.record _).bind ?_
    intro _
    refine (KeepsWhole.onHandle a.handle SharedHandle.release).bind ?_
    intro released
    split
    · exact .record _
    · exact .pure _
  · exact .pure _

theorem keepsWhole_perform [Machine] (op : Operation) : KeepsWhole layout (a.perform op) := by
  unfold perform
  refine (KeepsWhole.record _).bind ?_
  intro _
  split
  · exact keepsWhole_refuse _
  · next binding _ =>
    have hperform : KeepsWhole layout (performOn op binding) := by
      cases binding with
      | keyValue id format =>
        exact KeepsWhole.interpret (KeepsWhole.answerKeyValue id) (format.perform op).run
      | tuple id format =>
        exact KeepsWhole.interpret (KeepsWhole.answerTuple id) (format.perform op).run
    refine hperform.bind ?_
    intro performed
    refine (keepsWhole_counted performed).bind ?_
    intro result
    split
    · next value =>
      refine KeepsWhole.bind ?_ fun _ => .pure _
      cases notFoundSensor? op value with
      | none => exact .pure _
      | some sensor => exact .record _
    · exact (KeepsWhole.pure _).bind fun _ => .pure _

/-- An adapter for tuples that is initialized lays its rows out as configured. -/
def LaysOut (layout : ColumnLayout) (a : EngineAdapter) : Prop :=
  ∀ id format, a.binding = some (.tuple id format) → format.layout = layout

theorem laysOut_init {a : EngineAdapter} {r : Registry} (hwhole : r.Whole layout)
    (h : a.LaysOut layout) : (a.init.run r).1.2.LaysOut layout := by
  rcases a.init_adapter r with hsame | ⟨format, id, hformat, hbound⟩
  · rw [hsame]
    exact h
  · rw [hbound]
    cases format with
    | schemaless format => exact fun _ _ => nofun
    | columnar format =>
      obtain ⟨hkind, -⟩ := of_configuredFormat? hformat
      rw [configuredFormat?, hkind] at hformat
      cases Format.select?_tuple hwhole.count_eq hformat
      rintro _ _ ⟨⟩
      rw [hwhole.stem_eq]

theorem laysOut_cleanup {a : EngineAdapter} (r : Registry)
    (h : a.LaysOut layout) : (a.cleanup.run r).1.2.LaysOut layout := by
  cases hbinding : a.binding with
  | none =>
    rw [cleanup_of_none hbinding]
    exact h
  | some binding =>
    obtain ⟨_, -, hresult, -⟩ := cleanup_of_binding hbinding r
    rw [hresult]
    exact fun _ _ => nofun

end EngineAdapter

/-! ## Fleets -/

/-- The tuples of a registry are whole, and its adapters for tuples lay rows out accordingly. -/
structure LaidOut (layout : ColumnLayout) (r : Registry) (adapters : List Adapter) : Prop where
  whole : r.Whole layout
  laysOut : ∀ a, .engine a ∈ adapters → a.LaysOut layout

namespace LaidOut

variable {layout : ColumnLayout} {r r' : Registry} {adapters adapters' others : List Adapter}

theorem perm (h : LaidOut layout r adapters) (hperm : adapters.Perm adapters') :
    LaidOut layout r adapters' :=
  ⟨h.whole, fun a ha => h.laysOut a (hperm.mem_iff.2 ha)⟩

theorem cons_basic {b : BasicAdapter} (h : LaidOut layout r (.basic b :: others))
    (hagrees : r.AgreesButJournal r') (b' : BasicAdapter) :
    LaidOut layout r' (.basic b' :: others) := by
  refine ⟨h.whole.of_agreesButJournal hagrees, ?_⟩
  intro a ha
  exact h.laysOut a (List.mem_cons_of_mem _ (by simpa using ha))

theorem cons_engine {a a' : EngineAdapter} (h : LaidOut layout r (.engine a :: others))
    (hwhole : r'.Whole layout) (ha' : a'.LaysOut layout) :
    LaidOut layout r' (.engine a' :: others) := by
  refine ⟨hwhole, ?_⟩
  intro b hb
  rcases List.mem_cons.1 hb with heq | hb
  · cases heq
    exact ha'
  · exact h.laysOut b (List.mem_cons_of_mem _ hb)

theorem of_cons {a : Adapter} (h : LaidOut layout r (a :: others)) (hwhole : r'.Whole layout) :
    LaidOut layout r' others :=
  ⟨hwhole, fun b hb => h.laysOut b (List.mem_cons_of_mem _ hb)⟩

end LaidOut

namespace Fleet

variable {p : Properties} {f : Fleet} {layout : ColumnLayout}

theorem laidOut_start {n : Nat} (hcount : p.fieldCount = .ok n) :
    LaidOut ⟨p.fieldStem, n⟩ (start p).registry (start p).adapters := by
  refine ⟨⟨rfl, hcount, ?_, nofun⟩, nofun⟩
  have hregistrations : (Registry.standard p).registrations =
      [⟨"memory", .memory, .fresh "memory"⟩, ⟨"tuple", .memoryTuples, .fresh "tuple"⟩] := rfl
  show ∀ x ∈ (Registry.standard p).registrations, _
  rw [hregistrations]
  simp

/-- Every move leaves tuples whole. -/
theorem laidOut_step [Machine] (h : LaidOut layout f.registry f.adapters) (m : Move) :
    LaidOut layout (f.step m).registry (f.step m).adapters := by
  cases m with
  | create name =>
    obtain ⟨r, made, hstep, hagrees, hidle, -⟩ := f.step_create name
    rw [hstep]
    refine ⟨h.whole.of_agreesButJournal hagrees, ?_⟩
    intro a ha
    rcases List.mem_append.1 ha with hold | hmade
    · exact h.laysOut a hold
    · intro id format hbinding
      rw [hidle a hmade] at hbinding
      cases hbinding
  | init place =>
    refine act_keeps LaidOut.perm h fun a ha => ?_
    cases a with
    | basic b => exact ha.cons_basic b.init_agrees _
    | engine a =>
      exact ha.cons_engine (a.keepsWhole_init _ h.whole)
        (EngineAdapter.laysOut_init h.whole (ha.laysOut a List.mem_cons_self))
  | cleanup place =>
    refine act_keeps LaidOut.perm h fun a ha => ?_
    cases a with
    | basic b => exact ha.cons_basic b.cleanup_agrees _
    | engine a =>
      exact ha.cons_engine (a.keepsWhole_cleanup _ h.whole)
        (EngineAdapter.laysOut_cleanup _ (ha.laysOut a List.mem_cons_self))
  | perform place op =>
    refine act_keeps LaidOut.perm h fun a ha => ?_
    cases a with
    | basic b => exact ha.cons_basic (b.perform_agrees op) _
    | engine a =>
      exact ha.cons_engine (a.keepsWhole_perform op _ h.whole) (ha.laysOut a List.mem_cons_self)
  | drop place =>
    refine act_keeps LaidOut.perm h fun a ha => ?_
    cases a with
    | basic b => exact ha.of_cons h.whole
    | engine a => exact ha.of_cons (a.keepsWhole_abandon _ h.whole)

theorem laidOut_run [Machine] (h : LaidOut layout f.registry f.adapters) (moves : List Move) :
    LaidOut layout (f.run moves).registry (f.run moves).adapters := by
  induction moves generalizing f with
  | nil => exact h
  | cons m moves ih => exact ih (laidOut_step h m)

end Fleet

/-! ## What adapters for tuples are answered -/

namespace Provisioned

variable {p : Properties} {r : Registry} {adapters : List Adapter} {a : EngineAdapter} {e : Error}

/-- Initializing an adapter is refused for the configuration only. -/
theorem init_raises (h : Provisioned p r adapters) (hmem : .engine a ∈ adapters)
    (hraised : (a.init.run r).1.1 = .error (.raised e)) : ∃ cause, e = .configuration cause := by
  obtain ⟨x, hfind, -⟩ := h.knows a hmem
  have hinit := a.initialization r
  generalize a.init.run r = outcome at hraised hinit
  cases hinit with
  | refused cause journal _ =>
    cases hraised
    exact ⟨cause, rfl⟩
  | unavailable journal hbinding hformat hacquire =>
    cases hraised
    have hrefused := (Registry.acquire_eq_error_iff hfind).1 (congrArg Prod.fst hacquire)
    exact Opener.raises_configuration (h.openers _ x hfind) hrefused.2
  | bound => cases hraised

/-- Cleaning up an adapter is refused only if it is not initialized. -/
theorem cleanup_raises (h : Provisioned p r adapters) (hmem : .engine a ∈ adapters)
    (hraised : (a.cleanup.run r).1.1 = .error (.raised e)) :
    a.binding = none ∧ e = .configuration (.cleanedUpWithoutInit a.name) := by
  cases hbinding : a.binding with
  | none =>
    rw [EngineAdapter.cleanup_of_none hbinding] at hraised
    cases hraised
    exact ⟨rfl, rfl⟩
  | some binding =>
    obtain ⟨before, after, hadapters⟩ := List.append_of_mem hmem
    have hfront := h.perm (hadapters ▸ List.perm_middle)
    obtain ⟨clicked, hclicked, hresult, -⟩ := EngineAdapter.cleanup_of_binding hbinding r
    rw [hresult, ((hfront.toExact.of_agreesButJournal hclicked).release hbinding).1] at hraised
    cases hraised

/-- The engine of an initialized adapter for tuples keeps whole tuples. -/
theorem shapedBy_of_binding {layout : ColumnLayout} (h : Provisioned p r adapters)
    (hlaid : LaidOut layout r adapters) (hmem : .engine a ∈ adapters) (hkind : a.kind = .tuple)
    (hbound : a.binding ≠ none) :
    ∃ id e, a.binding = some (.tuple id ⟨layout⟩) ∧ r.Keeps id (.tuple e) ∧ e.ShapedBy layout ∧
      layout.fieldCount + 1 < UInt64.size := by
  obtain ⟨binding, hbinding⟩ := Option.ne_none_iff_exists'.1 hbound
  obtain ⟨_, -, -, hrefers⟩ := h.knows a hmem
  have htuple : binding.kind = .tuple := (hrefers binding hbinding).1.trans hkind
  cases binding with
  | keyValue id format => cases htuple
  | tuple id format =>
    cases hlaid.laysOut a hmem id format hbinding
    obtain ⟨-, hfits⟩ := h.counted a hmem id format hbinding
    obtain ⟨engine, hkeeps, hsort, hserves⟩ := h.serves hmem hbinding
    cases engine with
    | keyValue e => cases hsort
    | tuple e =>
      have hshaped := (hlaid.whole.engines id e hkeeps).shapedBy hserves
      exact ⟨id, e, hbinding, hkeeps, hshaped, hfits⟩

end Provisioned

namespace Fleet

/-- After any moves of any number of adapters on the engines in memory:
every tuple that is stored has its key in front and as many slots more as fields are configured;
an adapter for tuples is refused its initialization and its cleanup for the configuration only, and
its operations too unless it is initialized;
then an operation is refused for nothing but fields that are not in the schema and bounds that do
not pair up (only an insertion may also find no room for its slots, which is no error but a fault),
and where fields are not selected every row has all of the schema;
so that one with known fields, that neither inserts nor has bounds, has a result;
and the same holds however the calls of initialized adapters come in between one another. -/
theorem tuples_whole [Machine] {p : Properties} {n : Nat} (hcount : p.fieldCount = .ok n)
    (moves : List Move) :
    let f := (start p).run moves
    let r := f.registry
    let layout : ColumnLayout := ⟨p.fieldStem, n⟩
    (∀ (id : Nat) (e : TupleEngine) (key : Bytes) (held : Slots),
      r.engines[id]? = some (.tuple e) → e.tuples[key]? = some held →
        held.length = n + 1 ∧ held.head? = some key) ∧
    ∀ a, .engine a ∈ f.adapters → a.kind = .tuple →
      (∀ e, (a.init.run r).1.1 = .error (.raised e) → ∃ cause, e = .configuration cause) ∧
      (∀ e, (a.cleanup.run r).1.1 = .error (.raised e) → ∃ cause, e = .configuration cause) ∧
      (∀ op, a.binding = none →
        ((a.perform op).run r).1 = .error (.raised (.configuration (.usedOutside a.name)))) ∧
      (a.binding ≠ none → ∀ op,
        (∀ e, ((a.perform op).run r).1 = .error (.raised e) → layout.Refuses op e) ∧
        (∀ result, ((a.perform op).run r).1 = .ok result → op.ShowsAll layout.schema result) ∧
        ((∀ name ∈ op.names, name ∈ layout.schema) → op.kind ≠ .insert → op.kind ≠ .filter →
          ∃ result, ((a.perform op).run r).1 = .ok result)) ∧
      (a.binding ≠ none → ∃ id e, a.binding = some (.tuple id ⟨layout⟩) ∧
        r.engines[id]? = some (.tuple e) ∧
        ∀ {m : Nat} (histories : Fin m → List Operation) (schedule : List (Fin m)),
          let c := (Crew.start (fun i => (histories i).mapM (ColumnarFormat.calls ⟨layout⟩)) e).run
            (fun _ => TupleEngine.serve) schedule
          (∀ (key : Bytes) (held : Slots), c.shared.tuples[key]? = some held →
            held.length = n + 1 ∧ held.head? = some key) ∧
          ∀ i exchanges, (c.members i).result? = some exchanges → ∀ x ∈ exchanges,
            (∀ error, x.answer = .error (.raised error) → layout.Refuses x.op error) ∧
            ∀ result, x.answer = .ok result → x.op.ShowsAll layout.schema result) := by
  intro f r layout
  have h : Provisioned p r f.adapters := provisioned_run (provisioned_start p) moves
  have hlaid : LaidOut layout r f.adapters := laidOut_run (laidOut_start hcount) moves
  refine ⟨fun id e key held he hheld => (hlaid.whole.engines id e he).shapes key held hheld, ?_⟩
  intro a hmem hkind
  refine ⟨fun e => h.init_raises hmem, ?_, ?_, ?_, ?_⟩
  · intro e hraised
    exact ⟨_, (h.cleanup_raises hmem hraised).2⟩
  · intro op hnone
    exact (EngineAdapter.perform_of_binding_none hnone op r).1
  · intro hbound op
    obtain ⟨id, e, hbinding, hkeeps, hshaped, hfits⟩ :=
      h.shapedBy_of_binding hlaid hmem hkind hbound
    have hanswers : layout.Answers op ((a.perform op).run r).1 := by
      rw [(EngineAdapter.perform_tuple hbinding hkeeps op).1]
      exact ColumnarFormat.answers_perform hfits hshaped op
    exact ⟨fun e => hanswers.refuses, hanswers.shows, hanswers.exists_ok⟩
  · intro hbound
    obtain ⟨id, e, hbinding, hkeeps, hshaped, hfits⟩ :=
      h.shapedBy_of_binding hlaid hmem hkind hbound
    refine ⟨id, e, hbinding, hkeeps, ?_⟩
    intro m histories schedule c
    obtain ⟨hwhole, hanswered⟩ :=
      ColumnarFormat.crew_whole (f := ⟨layout⟩) hfits hshaped histories schedule
    refine ⟨hwhole.shapes, ?_⟩
    intro i exchanges hresult x hx
    have hanswers := hanswered i exchanges hresult x hx
    exact ⟨fun error => hanswers.refuses, hanswers.shows⟩

section

attribute [local instance] Machine.largest

/-- A reader of a tuple of two fields, one of which was never given, is shown both. -/
theorem tuples_whole_two :
    let p : Properties := .ofList [("fieldcount", "2"), ("tuple.storage_dir", "/tuple")]
    let f := (start p).run
      [.create "tuple", .init 0, .perform 0 (.insert [1] [⟨"field1", [2]⟩])]
    p.fieldCount = .ok 2 ∧ ∃ a, .engine a ∈ f.adapters ∧ a.kind = .tuple ∧ a.binding ≠ none ∧
      ∃ row : Row, ((a.perform (.read [1] none)).run f.registry).1 = .ok (some row) ∧
        row = [⟨"field0", []⟩, ⟨"field1", [2]⟩] ∧ row.names = ["field0", "field1"] := by
  intro p f
  have hcount : p.fieldCount = .ok 2 := rfl
  let a : EngineAdapter := ⟨"tuple", "tuple", .tuple, some (.tuple 0 ⟨⟨"field", 2⟩⟩)⟩
  have hfleet : f.adapters = [.engine a] := rfl
  have hmem : .engine a ∈ f.adapters := by
    rw [hfleet]
    exact List.mem_singleton_self _
  have hbound : a.binding ≠ none := nofun
  obtain ⟨-, hadapters⟩ := tuples_whole hcount
    [.create "tuple", .init 0, .perform 0 (.insert [1] [⟨"field1", [2]⟩])]
  obtain ⟨-, -, -, hperform, -⟩ := hadapters a hmem rfl
  obtain ⟨-, hshows, -⟩ := hperform hbound (.read [1] none)
  have hruns : ((a.perform (.read [1] none)).run f.registry).1.toOption.any
      (fun found : Option Row => found == some [⟨"field0", []⟩, ⟨"field1", [2]⟩]) = true := by
    decide +kernel
  obtain ⟨found, hread, hfound⟩ := exists_ok_of_any hruns
  obtain rfl : found = some [⟨"field0", []⟩, ⟨"field1", [2]⟩] := eq_of_beq hfound
  exact ⟨hcount, a, hmem, rfl, hbound, _, hread, rfl, hshows _ hread _ rfl⟩

end

end Fleet

end StoreBench
