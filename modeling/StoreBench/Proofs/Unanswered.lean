import StoreBench.Proofs.ClientCalls
import StoreBench.Proofs.Lifecycle
/-!
# Calls without an answer

Whatever the properties and the arguments, adapters on the engines in memory answer, be it with an
error, except in two cases, and both come from the number of fields that rows are configured to
have. With the largest number a word holds, a tuple engine has one slot more than can be counted, so
it cannot be opened. With a smaller one, an insert of fewer fields than rows have needs room for all
the slots, and memory may not hold them. No other count overflows, and no slot is looked for that is
not there.
-/

namespace StoreBench

theorem ne_error_of_hasAnswer {α : Type} {result : Except Failure α} {failure : Failure}
    (h : hasAnswer result = true) (hfailure : failure.isAnswer = false) :
    result ≠ .error failure := by
  rintro rfl
  exact Bool.false_ne_true (hfailure.symm.trans h)

theorem Failure.RefusesRows.isAnswer {failure : Failure} (h : failure.RefusesRows) :
    failure.isAnswer = true := by
  cases failure with
  | raised error => rfl
  | fault => exact h.elim
  | exhausted => exact h.elim

/-! ## Opening engines -/

theorem Properties.fieldCount_lt {p : Properties} {fieldCount : Nat}
    (h : p.fieldCount = .ok fieldCount) : fieldCount < UInt64.size := by
  unfold Properties.fieldCount natural parsed at h
  split at h
  · cases h
    decide
  · split at h
    · next hparsed =>
      cases h
      exact Text.lt_of_parseUnsigned? hparsed
    · cases h

namespace Opener

variable {p : Properties} {failure : Failure}

theorem isAnswer_of_memory (h : memory.run p = .error failure) : failure.isAnswer = true := by
  simp only [run, memory] at h
  cases hoptions : EngineOptions.ofProperties? p "memory" with
  | error cause =>
    rw [hoptions] at h
    cases h
    rfl
  | ok options => rw [hoptions] at h; cases h

/-- A tuple engine is refused for a stated reason, unless its slots are too many to be counted. -/
theorem memoryTuples_unanswered_iff (hfailure : failure.isAnswer = false) :
    memoryTuples.run p = .error failure ↔ failure = .fault ∧
      p.fieldCount = .ok (UInt64.size - 1) ∧ (EngineOptions.ofProperties? p "tuple").isOk := by
  simp only [run, memoryTuples]
  cases EngineOptions.ofProperties? p "tuple" with
  | error cause =>
    refine iff_of_false (fun h => ?_) fun h => Bool.false_ne_true h.2.2
    cases h
    cases hfailure
  | ok options =>
    cases hcount : p.fieldCount with
    | error cause =>
      constructor
      · rintro ⟨⟩
        cases hfailure
      · rintro ⟨-, ⟨⟩, -⟩
    | ok fieldCount =>
      show (if fieldCount + 1 < UInt64.size then
          (.ok (.fresh "tuple" (fieldCount + 1)) : Except Failure TupleEngine)
        else .error .fault).map Engine.tuple = .error failure ↔ _
      have hlt := Properties.fieldCount_lt hcount
      by_cases hfits : fieldCount + 1 < UInt64.size
      · rw [if_pos hfits]
        constructor
        · rintro ⟨⟩
        · rintro ⟨-, h, -⟩
          obtain rfl : fieldCount = UInt64.size - 1 := by simpa using h
          exact absurd hfits (by decide)
      · rw [if_neg hfits]
        obtain rfl : fieldCount = UInt64.size - 1 := by omega
        constructor
        · rintro ⟨⟩
          exact ⟨rfl, rfl, rfl⟩
        · rintro ⟨rfl, -⟩
          rfl

end Opener

/-! ## Laying rows out -/

/-- The operation inserts fewer fields than rows have, and there is no room for their slots. -/
def ColumnLayout.LacksRoom [Machine] (layout : ColumnLayout) (op : Operation) (failure : Failure) :
    Prop :=
  ∃ key row, op = .insert key row ∧ row.length < layout.fieldCount ∧
    reserve (layout.fieldCount + 1) slotSize = .error failure

namespace ColumnarFormat

variable {f : ColumnarFormat} {op : Operation} {failure : Failure}
  (hfits : f.layout.fieldCount + 1 < UInt64.size)

include hfits

/-- Where slots can be counted, nothing but room for them is wanting. -/
theorem mayFail_lacksRoom [Machine] (op : Operation) :
    f.MayFail op fun failure => failure.isAnswer = true ∨ f.layout.LacksRoom op failure where
  count failure h := by
    rw [ColumnLayout.slotCount?, if_pos hfits] at h
    cases h
  room key row hop failure h := by
    rcases ColumnLayout.emptySlots?_eq_error_iff.1 h with hcount | ⟨-, hgiven, hreserve⟩
    · rw [ColumnLayout.slotCount?, if_pos hfits] at hcount
      cases hcount
    · exact .inr ⟨key, row, hop, hgiven, hreserve⟩

/-- An insert without room ends before it comes to the engine. -/
theorem run_of_lacksRoom [Machine] (h : f.layout.LacksRoom op failure) :
    (f.perform op).run = Program.note (.click .encode) (.done (.error failure)) := by
  obtain ⟨key, row, rfl, hgiven, hreserve⟩ := h
  have hslots : f.layout.emptySlots? row.length = .error failure :=
    ColumnLayout.emptySlots?_eq_error_iff.2 (.inr ⟨hfits, hgiven, hreserve⟩)
  simp only [perform, insert, ColumnLayout.encode, hslots]
  rfl

end ColumnarFormat

/-! ## Single adapters -/

theorem Adapter.hasAnswer_create (name : String) (r : Registry) :
    hasAnswer ((create name).run r).1 = true := by
  by_cases hbasic : name = "basic"
  · subst hbasic
    rfl
  · cases hfind : r.find? name with
    | none =>
      simp only [create, hbasic, if_false, StateT.run_bind, StateT.run_get, pure_bind]
      rw [hfind]
      rfl
    | some x =>
      obtain ⟨journal, hcreate⟩ := create_eq hbasic hfind
      rw [hcreate]
      rfl

namespace BasicAdapter

variable (b : BasicAdapter) (r : Registry)

theorem hasAnswer_init : hasAnswer (b.init.run r).1.1 = true := by
  obtain ⟨_ | _⟩ := b <;> rfl

theorem hasAnswer_cleanup : hasAnswer (b.cleanup.run r).1.1 = true := by
  obtain ⟨_ | _⟩ := b <;> rfl

theorem hasAnswer_perform (op : Operation) : hasAnswer ((b.perform op).run r).1 = true := by
  obtain ⟨_ | _⟩ := b <;> rfl

end BasicAdapter

namespace EngineAdapter

variable {p : Properties} {a : EngineAdapter} {r : Registry} {op : Operation} {failure : Failure}

/-- Rows of an adapter for tuples have the configured number of fields, and their slots can be
counted. -/
def IsCounted (p : Properties) (a : EngineAdapter) : Prop :=
  ∀ id format, a.binding = some (.tuple id format) →
    p.fieldCount = .ok format.layout.fieldCount ∧ format.layout.fieldCount + 1 < UInt64.size

/-- Rows are laid out in slots for the engines of tuples, in as many as are configured. -/
theorem of_configuredFormat? {format : ColumnarFormat}
    (h : a.configuredFormat? p = .ok (.columnar format)) :
    a.kind = .tuple ∧ p.fieldCount = .ok format.layout.fieldCount := by
  have hkind : a.kind = .tuple := (Format.kind_bind_of_select? h 0).symm
  refine ⟨hkind, ?_⟩
  cases hcount : p.fieldCount with
  | ok fieldCount =>
    rw [configuredFormat?, hkind] at h
    cases Format.select?_tuple hcount h
    rfl
  | error cause =>
    rw [configuredFormat?, hkind, Format.select?, ColumnarFormat.select?, hcount] at h
    split at h <;> cases h

/-- An initialization has no answer just if there is none to taking the reference. -/
theorem init_unanswered_iff (hfailure : failure.isAnswer = false) :
    (a.init.run r).1.1 = .error failure ↔ a.binding = none ∧
      (a.configuredFormat? r.properties).isOk ∧
      ((Registry.acquire a.handle).run r).1 = .error failure := by
  have hinit := a.initialization r
  generalize a.init.run r = outcome at hinit
  cases hinit with
  | refused cause journal hcause =>
    refine iff_of_false ?_ ?_
    · rintro ⟨⟩
      cases hfailure
    · rintro ⟨hnone, hformat, -⟩
      rw [hcause hnone] at hformat
      cases hformat
  | unavailable journal hbinding hformat hacquire =>
    rw [hbinding, hformat, hacquire]
    simp [Except.isOk, Except.toBool]
  | bound journal _ _ hacquire =>
    rw [hacquire]
    exact iff_of_false nofun nofun

theorem isAnswer_of_perform_keyValue [Machine] {id : Nat} {format : SchemalessFormat}
    (hbinding : a.binding = some (.keyValue id format)) (hserves : r.Serves id .keyValue)
    (h : ((a.perform op).run r).1 = .error failure) : failure.isAnswer = true :=
  (perform_unharmed_of_mayFail hbinding (fun _ => Failure.RefusesRows.isAnswer) trivial
    hserves).failing failure h

theorem perform_tuple_unanswered_iff [Machine] {id : Nat} {format : ColumnarFormat}
    (hbinding : a.binding = some (.tuple id format)) (hserves : r.Serves id .tuple)
    (hfits : format.layout.fieldCount + 1 < UInt64.size) (hfailure : failure.isAnswer = false) :
    ((a.perform op).run r).1 = .error failure ↔ format.layout.LacksRoom op failure := by
  constructor
  · intro h
    have hfails := (perform_unharmed_of_mayFail hbinding
      (fun _ hrows => .inl hrows.isAnswer) (format.mayFail_lacksRoom hfits op) hserves).failing
    exact (hfails failure h).resolve_left (Bool.eq_false_iff.1 hfailure)
  · intro h
    rw [perform_eq_report hbinding]
    refine (report_agrees op _ _).1.trans ?_
    show ((Registry.runTuple id (format.perform op)).run _).1 = _
    rw [Registry.runTuple, format.run_of_lacksRoom hfits h]
    rfl

end EngineAdapter

/-- Initializing the adapter opens an engine for tuples where as many fields are configured as a
word counts, and so one slot more. -/
def Adapter.OpensTooWide (p : Properties) : Adapter → Prop
  | .basic _ => False
  | .engine a => a.kind = .tuple ∧ p.fieldCount = .ok (UInt64.size - 1) ∧
      (a.configuredFormat? p).isOk ∧ (EngineOptions.ofProperties? p "tuple").isOk

theorem Adapter.not_opensTooWide {p : Properties} {fieldCount : Nat}
    (hcount : p.fieldCount = .ok fieldCount) (hfits : fieldCount + 1 < UInt64.size) (a : Adapter) :
    ¬ a.OpensTooWide p := by
  cases a with
  | basic b => exact id
  | engine a =>
    intro hwide
    cases hcount.symm.trans hwide.2.1
    exact absurd hfits (by decide)

/-- The adapter is initialized and lays rows out, and the operation inserts fewer fields than are
configured, for whose slots there is no room. -/
def Adapter.LacksRoom [Machine] (p : Properties) (op : Operation) (failure : Failure) :
    Adapter → Prop
  | .basic _ => False
  | .engine a => ∃ id format, a.binding = some (.tuple id format) ∧
      p.fieldCount = .ok format.layout.fieldCount ∧ format.layout.LacksRoom op failure

/-! ## Adapters on a registry -/

/-- A reference cannot be had just if the engine has to be opened and cannot. -/
theorem Registry.acquire_eq_error_iff {r : Registry} {name : String} {x : Registration}
    {failure : Failure} (hfind : r.find? name = some x) :
    ((acquire name).run r).1 = .error failure ↔
      x.handle.engine = none ∧ x.opener.run r.properties = .error failure := by
  cases hengine : x.handle.engine with
  | some id =>
    rw [acquire_open hfind hengine]
    exact iff_of_false nofun nofun
  | none =>
    cases hrun : x.opener.run r.properties with
    | error failure' =>
      obtain ⟨journal, heq⟩ := acquire_refused hfind hengine hrun
      simp [heq]
    | ok engine =>
      obtain ⟨journal, heq⟩ := acquire_first hfind hengine hrun
      simp [heq]

/-- The adapters count on a registry of the engines in memory with the properties given. -/
structure Provisioned (p : Properties) (r : Registry) (adapters : List Adapter) : Prop
    extends Exact r adapters where
  properties_eq : r.properties = p
  openers : ∀ name x, r.find? name = some x → x.opener = .memory ∨ x.opener = .memoryTuples
  counted : ∀ a, Adapter.engine a ∈ adapters → a.IsCounted p

namespace Provisioned

variable {p : Properties} {r r' : Registry} {adapters adapters' others : List Adapter}
  {a : EngineAdapter} {failure : Failure}

theorem perm (h : Provisioned p r adapters) (hperm : adapters.Perm adapters') :
    Provisioned p r adapters' where
  toExact := h.toExact.perm hperm
  properties_eq := h.properties_eq
  openers := h.openers
  counted a ha := h.counted a (hperm.mem_iff.2 ha)

/-- What leaves the counts exact and the setup alone, and binds to counted slots only. -/
theorem of_sameSetup (h : Provisioned p r adapters) (hexact : Exact r' adapters')
    (hsetup : r.SameSetup r') (hcounted : ∀ a, Adapter.engine a ∈ adapters' → a.IsCounted p) :
    Provisioned p r' adapters' where
  toExact := hexact
  properties_eq := hsetup.properties_eq.trans h.properties_eq
  openers name x hx := by
    have hopener := hsetup.openers_eq name
    rw [hx] at hopener
    obtain ⟨y, hy, hsame⟩ := Option.map_eq_some_iff.1 hopener.symm
    exact hsame ▸ h.openers name y hy
  counted := hcounted

/-- An engine for tuples is open only if the slots of its rows can be counted. -/
theorem fits_of_open (h : Provisioned p r adapters) {name : String} {x : Registration}
    (hfind : r.find? name = some x) (hkind : x.opener.kind = .tuple) {id : Nat}
    (hengine : x.handle.engine = some id) :
    ∃ n, p.fieldCount = .ok n ∧ n + 1 < UInt64.size := by
  have hopen : x.handle.isOpen = true := by simp [SharedHandle.isOpen, hengine]
  -- An open engine has a holder, and the holder's rows are laid out for it.
  obtain ⟨holder, hmem, hholds⟩ :=
    List.countP_pos_iff.1 ((h.counts.counts name x hfind).isOpen_iff.1 hopen)
  cases holder with
  | basic b => cases hholds
  | engine b =>
    obtain ⟨hbound, hname⟩ : b.binding.isSome = true ∧ b.handle = name := by
      simpa [Adapter.holds] using hholds
    obtain ⟨binding, hbinding⟩ := Option.isSome_iff_exists.1 hbound
    obtain ⟨y, hy, hsort, hrefers⟩ := h.knows b hmem
    cases (hname ▸ hy).symm.trans hfind
    have htuple : binding.kind = .tuple := (hrefers binding hbinding).1.trans (hsort ▸ hkind)
    cases binding with
    | keyValue id format => cases htuple
    | tuple id format => exact ⟨_, h.counted b hmem id format hbinding⟩

/-- Whoever gets a reference to an engine for tuples finds its slots countable. -/
theorem fits_of_acquire (h : Provisioned p r adapters) {name : String} {x : Registration}
    (hfind : r.find? name = some x) (hkind : x.opener.kind = .tuple) {id n : Nat}
    (hcount : p.fieldCount = .ok n) (hacquire : (Registry.acquire name).run r = (.ok id, r')) :
    n + 1 < UInt64.size := by
  cases hengine : x.handle.engine with
  | some held =>
    obtain ⟨m, hm, hfits⟩ := h.fits_of_open hfind hkind hengine
    cases hcount.symm.trans hm
    exact hfits
  | none =>
    cases hrun : x.opener.run r.properties with
    | error failure =>
      obtain ⟨journal, heq⟩ := Registry.acquire_refused hfind hengine hrun
      rw [heq] at hacquire
      cases hacquire
    | ok engine =>
      rcases h.openers name x hfind with hopener | hopener
      · rw [hopener] at hkind
        cases hkind
      · rw [hopener, h.properties_eq] at hrun
        exact (Opener.memoryTuples_ok hcount hrun).2

/-! ### What moves keep -/

theorem init (h : Provisioned p r (.engine a :: others)) :
    Provisioned p (a.init.run r).2 (.engine (a.init.run r).1.2 :: others) := by
  obtain ⟨hexact, huntouched⟩ := h.toExact.init
  refine h.of_sameSetup hexact huntouched.toSameSetup fun b hb => ?_
  rcases List.mem_cons.1 hb with heq | hb
  · cases heq
    have hsame : a.IsCounted p := h.counted a List.mem_cons_self
    obtain ⟨x, hfind, hkind, -⟩ := h.knows a List.mem_cons_self
    have hinit := a.initialization r
    generalize a.init.run r = outcome at hinit
    cases hinit with
    | refused => exact hsame
    | unavailable => exact hsame
    | @bound format id acquired journal _ hformat hacquire =>
      cases format with
      | schemaless format => exact fun _ _ => nofun
      | columnar format =>
        rw [h.properties_eq] at hformat
        obtain ⟨htuple, hcount⟩ := EngineAdapter.of_configuredFormat? hformat
        rintro _ _ ⟨⟩
        exact ⟨hcount, h.fits_of_acquire hfind (hkind.trans htuple) hcount hacquire⟩
  · exact h.counted b (List.mem_cons_of_mem _ hb)

theorem cleanup (h : Provisioned p r (.engine a :: others)) :
    Provisioned p (a.cleanup.run r).2 (.engine (a.cleanup.run r).1.2 :: others) := by
  obtain ⟨hexact, huntouched⟩ := h.toExact.cleanup
  refine h.of_sameSetup hexact huntouched.toSameSetup fun b hb => ?_
  rcases List.mem_cons.1 hb with heq | hb
  · cases heq
    cases hbinding : a.binding with
    | none =>
      rw [EngineAdapter.cleanup_of_none hbinding]
      exact h.counted a List.mem_cons_self
    | some binding =>
      obtain ⟨_, -, hresult, -⟩ := EngineAdapter.cleanup_of_binding hbinding r
      rw [hresult]
      exact fun _ _ => nofun
  · exact h.counted b (List.mem_cons_of_mem _ hb)

theorem abandon (h : Provisioned p r (.engine a :: others)) :
    Provisioned p (a.abandon.run r).2 others := by
  obtain ⟨hexact, huntouched⟩ := h.toExact.abandon
  exact h.of_sameSetup hexact huntouched.toSameSetup fun b hb =>
    h.counted b (List.mem_cons_of_mem _ hb)

theorem perform [Machine] (h : Provisioned p r adapters) (hmem : .engine a ∈ adapters)
    (op : Operation) :
    Provisioned p (a.perform op |>.run r).2 adapters := by
  obtain ⟨hexact, hsetup⟩ := h.toExact.perform hmem op
  exact h.of_sameSetup hexact hsetup h.counted

/-- What an adapter that stores nothing does is not seen by the others. -/
theorem basic {b : BasicAdapter} (h : Provisioned p r (.basic b :: others))
    (hagrees : r.AgreesButJournal r') (b' : BasicAdapter) :
    Provisioned p r' (.basic b' :: others) := by
  refine h.of_sameSetup (h.toExact.basic hagrees b') (hagrees.beside 0).sameSetup fun a ha => ?_
  exact h.counted a (List.mem_cons_of_mem _ (by simpa using ha))

theorem of_basic {b : BasicAdapter} (h : Provisioned p r (.basic b :: others)) :
    Provisioned p r others :=
  h.of_sameSetup (Exact.cons_basic_iff.1 h.toExact) ⟨rfl, fun _ => rfl⟩ fun a ha =>
    h.counted a (List.mem_cons_of_mem _ ha)

/-! ### Which calls have an answer -/

/-- An initialization has no answer just if it opens an engine for tuples that are too wide. -/
theorem init_unanswered_iff (h : Provisioned p r adapters) (hmem : .engine a ∈ adapters)
    (hfailure : failure.isAnswer = false) :
    (a.init.run r).1.1 = .error failure ↔ failure = .fault ∧ (Adapter.engine a).OpensTooWide p := by
  obtain ⟨x, hfind, hkind, hbound⟩ := h.knows a hmem
  rw [EngineAdapter.init_unanswered_iff hfailure, Registry.acquire_eq_error_iff hfind,
    h.properties_eq]
  constructor
  · rintro ⟨-, hformat, -, hrun⟩
    rcases h.openers _ x hfind with hopener | hopener
    · rw [hopener] at hrun
      exact absurd (Opener.isAnswer_of_memory hrun) (Bool.eq_false_iff.1 hfailure)
    · rw [hopener] at hrun hkind
      obtain ⟨hfault, hcount, hoptions⟩ := (Opener.memoryTuples_unanswered_iff hfailure).1 hrun
      exact ⟨hfault, hkind.symm, hcount, hformat, hoptions⟩
  · rintro ⟨hfault, hwide⟩
    have hwide' := hwide
    obtain ⟨htuple, hcount, hformat, hoptions⟩ := hwide'
    have hsort : x.opener.kind = .tuple := hkind.trans htuple
    refine ⟨?_, hformat, ?_, ?_⟩
    · -- A bound adapter has rows that can be counted.
      refine Option.eq_none_iff_forall_ne_some.2 fun binding hbinding => ?_
      have hbinds : binding.kind = .tuple := (hbound binding hbinding).1.trans htuple
      cases binding with
      | keyValue id format => cases hbinds
      | tuple id format =>
        obtain ⟨hcount', hfits⟩ := h.counted a hmem id format hbinding
        exact Adapter.not_opensTooWide hcount' hfits _ hwide
    · refine Option.eq_none_iff_forall_ne_some.2 fun id hengine => ?_
      obtain ⟨n, hcount', hfits⟩ := h.fits_of_open hfind hsort hengine
      exact Adapter.not_opensTooWide hcount' hfits _ hwide
    · rcases h.openers _ x hfind with hopener | hopener
      · rw [hopener] at hsort
        cases hsort
      · rw [hopener]
        exact (Opener.memoryTuples_unanswered_iff hfailure).2 ⟨hfault, hcount, hoptions⟩

theorem perform_unanswered_iff [Machine] (h : Provisioned p r adapters)
    (hmem : .engine a ∈ adapters) {op : Operation} (hfailure : failure.isAnswer = false) :
    ((a.perform op).run r).1 = .error failure ↔ (Adapter.engine a).LacksRoom p op failure := by
  cases hbinding : a.binding with
  | none =>
    rw [(EngineAdapter.perform_of_binding_none hbinding op r).1]
    refine iff_of_false ?_ ?_
    · rintro ⟨⟩
      cases hfailure
    · rintro ⟨id, format, hbound, -⟩
      rw [hbinding] at hbound
      cases hbound
  | some binding =>
    have hserves := h.serves hmem hbinding
    cases binding with
    | keyValue id format =>
      refine iff_of_false (fun hfails => ?_) ?_
      · have hanswer := EngineAdapter.isAnswer_of_perform_keyValue hbinding hserves hfails
        exact Bool.false_ne_true (hfailure.symm.trans hanswer)
      · rintro ⟨id', format', hbound, -⟩
        rw [hbinding] at hbound
        cases hbound
    | tuple id format =>
      obtain ⟨hcount, hfits⟩ := h.counted a hmem id format hbinding
      rw [EngineAdapter.perform_tuple_unanswered_iff hbinding hserves hfits hfailure]
      constructor
      · exact fun hlacks => ⟨id, format, hbinding, hcount, hlacks⟩
      · rintro ⟨id', format', hbound, -, hlacks⟩
        cases hbinding.symm.trans hbound
        exact hlacks

/-- Cleaning up always has an answer. -/
theorem hasAnswer_cleanup (h : Provisioned p r (.engine a :: others)) :
    hasAnswer (a.cleanup.run r).1.1 = true := by
  cases hbinding : a.binding with
  | none =>
    rw [EngineAdapter.cleanup_of_none hbinding]
    rfl
  | some binding =>
    obtain ⟨clicked, hclicked, hresult, -⟩ := EngineAdapter.cleanup_of_binding hbinding r
    rw [hresult, ((h.toExact.of_agreesButJournal hclicked).release hbinding).1]
    rfl

end Provisioned

namespace Fleet

variable {p : Properties} {f : Fleet}

theorem provisioned_step [Machine] (h : Provisioned p f.registry f.adapters) (m : Move) :
    Provisioned p (f.step m).registry (f.step m).adapters := by
  cases m with
  | create name =>
    have hexact := exact_step h.toExact (.create name)
    obtain ⟨r, made, hstep, hagrees, hidle, -⟩ := f.step_create name
    rw [hstep] at hexact ⊢
    refine h.of_sameSetup hexact (hagrees.beside 0).sameSetup fun a ha => ?_
    rcases List.mem_append.1 ha with hold | hmade
    · exact h.counted a hold
    · intro id format hbinding
      rw [hidle a hmade] at hbinding
      cases hbinding
  | init place =>
    refine act_keeps Provisioned.perm h fun a ha => ?_
    cases a with
    | basic b => exact ha.basic b.init_agrees _
    | engine a => exact ha.init
  | cleanup place =>
    refine act_keeps Provisioned.perm h fun a ha => ?_
    cases a with
    | basic b => exact ha.basic b.cleanup_agrees _
    | engine a => exact ha.cleanup
  | perform place op =>
    refine act_keeps Provisioned.perm h fun a ha => ?_
    cases a with
    | basic b => exact ha.basic (b.perform_agrees op) _
    | engine a => exact ha.perform List.mem_cons_self op
  | drop place =>
    refine act_keeps Provisioned.perm h fun a ha => ?_
    cases a with
    | basic b => exact ha.of_basic
    | engine a => exact ha.abandon

theorem provisioned_run [Machine] (h : Provisioned p f.registry f.adapters) (moves : List Move) :
    Provisioned p (f.run moves).registry (f.run moves).adapters := by
  induction moves generalizing f with
  | nil => exact h
  | cons m moves ih => exact ih (provisioned_step h m)

theorem provisioned_start (p : Properties) :
    Provisioned p (start p).registry (start p).adapters where
  toExact := exact_start p
  properties_eq := rfl
  openers _ _ hfind := (fresh_of_find?_standard hfind).2
  counted := nofun

/-- After any moves of any number of adapters on the engines in memory, whatever the properties:
making an adapter and cleaning one up always have an answer;
initializing one has an answer unless it opens an engine for tuples with as many fields as a word
counts, which faults;
and an operation has an answer unless it inserts fewer fields than are configured for tuples where
there is no room for the slots, and then its failure is that of the reservation. -/
theorem unanswered_calls [Machine] (p : Properties) (moves : List Move) :
    let f := (start p).run moves
    let r := f.registry
    (∀ name, hasAnswer ((Adapter.create name).run r).1 = true) ∧
    ∀ a ∈ f.adapters,
      hasAnswer (a.cleanup.run r).1.1 = true ∧
      (∀ failure, failure.isAnswer = false →
        ((a.init.run r).1.1 = .error failure ↔ failure = .fault ∧ a.OpensTooWide p)) ∧
      ∀ op failure, failure.isAnswer = false →
        (((a.perform op).run r).1 = .error failure ↔ a.LacksRoom p op failure) := by
  intro f r
  have h : Provisioned p r f.adapters := provisioned_run (provisioned_start p) moves
  refine ⟨fun name => Adapter.hasAnswer_create name r, fun a hmem => ?_⟩
  cases a with
  | basic b =>
    refine ⟨b.hasAnswer_cleanup r, fun failure hfailure => ?_, fun op failure hfailure => ?_⟩
    · exact iff_of_false (ne_error_of_hasAnswer (b.hasAnswer_init r) hfailure) fun h => h.2
    · exact iff_of_false (ne_error_of_hasAnswer (b.hasAnswer_perform r op) hfailure) id
  | engine a =>
    obtain ⟨before, after, hadapters⟩ := List.append_of_mem hmem
    refine ⟨?_, fun failure hfailure => ?_, fun op failure hfailure => ?_⟩
    · exact (h.perm (hadapters ▸ List.perm_middle)).hasAnswer_cleanup
    · exact h.init_unanswered_iff hmem hfailure
    · exact h.perform_unanswered_iff hmem hfailure

section

attribute [local instance] Machine.largest

/-- With as many fields configured as a word counts, initializing an adapter for tuples faults. -/
theorem init_faults :
    let f := (start (.ofList [("fieldcount", "18446744073709551615"),
      ("tuple.storage_dir", "/tuple")])).run [.create "tuple"]
    f.adapters.map (fun a => (a.init.run f.registry).1.1) = [.error .fault] := by
  rfl

end

end Fleet

end StoreBench
