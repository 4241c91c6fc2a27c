import Mathlib.Data.List.FinRange
import StoreBench.Proofs.Lifecycle
import StoreBench.Proofs.Loading
/-!
# Phases on one engine

The clients of a phase share an engine that an adapter which does nothing else holds open. They
initialize their adapters and clean them up whenever they like. That leaves the engine with the
table it holds, and an adapter that is initialized is bound to that engine.
-/

namespace StoreBench

variable {layout : ColumnLayout} {kind : EngineKind} {name : String} {r : Registry}

/-! ## Adapters that join -/

/-- Adapters that hold references to the engine of one name are bound to the same engine. -/
theorem Exact.engineId_eq {adapters : List Adapter} (h : Exact r adapters) {a b : EngineAdapter}
    (ha : .engine a ∈ adapters) (hb : .engine b ∈ adapters) (hhandle : a.handle = b.handle)
    {binding binding' : Binding} (hbinding : a.binding = some binding)
    (hbinding' : b.binding = some binding') : binding.engineId = binding'.engineId := by
  obtain ⟨x, hx, -, hbound⟩ := h.knows a ha
  obtain ⟨y, hy, -, hbound'⟩ := h.knows b hb
  rw [hhandle] at hx
  cases hx.symm.trans hy
  exact Option.some.inj ((hbound _ hbinding).2.symm.trans (hbound' _ hbinding').2)

namespace EngineAdapter

variable {a keeper : EngineAdapter}

/-- An adapter for the engine of a name, which is bound to the first engine while it is
initialized. -/
structure Joins (layout : ColumnLayout) (kind : EngineKind) (name : String) (a : EngineAdapter) :
    Prop where
  name_eq : a.name = name
  handle_eq : a.handle = name
  kind_eq : a.kind = kind
  bound : ∀ binding, a.binding = some binding → (Adapter.engine a).IsBoundTo layout kind

theorem engineId_of_isBoundTo (h : (Adapter.engine a).IsBoundTo layout kind) {binding : Binding}
    (hbinding : a.binding = some binding) : binding.engineId = 0 := by
  obtain ⟨ea, heq, hbound⟩ := h
  cases heq
  cases kind with
  | keyValue =>
    obtain ⟨mergesUpdates, hkeyValue⟩ := hbound
    cases hbinding.symm.trans hkeyValue
    rfl
  | tuple =>
    cases hbinding.symm.trans hbound
    rfl

/-- An adapter is initialized while another one holds the engine open. -/
theorem Joins.init (h : a.Joins layout kind name) (hkeeper : keeper.Joins layout kind name)
    (hopen : keeper.binding.isSome) (hp : r.properties.Describe layout) {others : List Adapter}
    (hexact : Exact r (.engine a :: others)) (hmem : .engine keeper ∈ others) :
    (a.init.run r).1.2.Joins layout kind name := by
  have hexact' := hexact.init.1
  rcases a.init_adapter r with hsame | ⟨format, id, hformat, hbound⟩
  · rwa [hsame]
  · rw [hbound] at hexact' ⊢
    obtain ⟨binding, hbinding⟩ := Option.isSome_iff_exists.1 hopen
    have hid := hexact'.engineId_eq List.mem_cons_self (List.mem_cons_of_mem _ hmem)
      (h.handle_eq.trans hkeeper.handle_eq.symm) rfl hbinding
    rw [Format.engineId_bind, engineId_of_isBoundTo (hkeeper.bound _ hbinding) hbinding] at hid
    refine ⟨h.name_eq, h.handle_eq, h.kind_eq, fun _ _ => ?_⟩
    rw [configuredFormat?, h.kind_eq] at hformat
    exact Adapter.isBoundTo_of_select? hp hformat (hid ▸ rfl)

theorem Joins.cleanup (h : a.Joins layout kind name) (r : Registry) :
    (a.cleanup.run r).1.2.Joins layout kind name := by
  cases hbinding : a.binding with
  | none =>
    rw [cleanup_of_none hbinding]
    exact h
  | some binding =>
    obtain ⟨clicked, -, hresult, -⟩ := cleanup_of_binding hbinding r
    rw [hresult]
    exact ⟨h.name_eq, h.handle_eq, h.kind_eq, fun _ => nofun⟩

end EngineAdapter

/-! ## Phases -/

theorem exists_ofFn_perm {α : Type} {n : Nat} (f : Fin n → α) (i : Fin n) :
    ∃ rest, (List.ofFn f).Perm (f i :: rest) ∧
      ∀ a, (List.ofFn (Function.update f i a)).Perm (a :: rest) := by
  have hall (g : Fin n → α) : List.ofFn g = held some g := by
    rw [List.ofFn_eq_map, held, List.filterMap_eq_map']
  simp only [hall]
  exact exists_held_perm some f i

/-- The clients of a phase join an engine that holds a table and that a keeper holds open. -/
structure Phase.Hosts {n : Nat} (layout : ColumnLayout) (kind : EngineKind) (name : String)
    (keeper : EngineAdapter) (phase : Phase n) (t : Table) : Prop where
  describes : phase.registry.properties.Describe layout
  exact : Exact phase.registry (.engine keeper :: List.ofFn phase.adapters)
  keeper_joins : keeper.Joins layout kind name
  keeper_open : keeper.binding.isSome
  held : phase.registry.HoldsTable layout kind t
  joins : ∀ i, ∃ a, phase.adapters i = .engine a ∧ a.Joins layout kind name

namespace Phase.Hosts

variable {n : Nat} {keeper : EngineAdapter} {phase : Phase n} {t : Table} {w : Workload}
  (h : phase.Hosts layout kind name keeper t) (i : Fin n)

include h

/-- The registry changes where no adapter takes notice. -/
theorem of_agreesButJournal {registry : Registry}
    (hagrees : phase.registry.AgreesButJournal registry) (latch : Latch)
    (limiters : Fin n → Option RateLimiter) (numbers : Numbering) :
    (⟨registry, numbers, latch, phase.adapters, limiters⟩ : Phase n).Hosts layout kind name keeper
      t where
  describes := by
    obtain ⟨journal, rfl⟩ := hagrees
    exact h.describes
  exact := h.exact.of_agreesButJournal hagrees
  keeper_joins := h.keeper_joins
  keeper_open := h.keeper_open
  held := h.held.of_agreesButJournal hagrees
  joins := h.joins

/-- An adapter changes in a way that the keeper takes no notice of. -/
theorem replace {a : EngineAdapter} (ha : phase.adapters i = .engine a) {a' : EngineAdapter}
    {registry : Registry}
    (hchange : ∀ others, Exact phase.registry (.engine a :: others) →
      Exact registry (.engine a' :: others) ∧ Untouched phase.registry registry others)
    (hjoins : ∀ others, Exact phase.registry (.engine a :: others) → .engine keeper ∈ others →
      a'.Joins layout kind name) :
    Hosts layout kind name keeper
      { phase with registry, adapters := Function.update phase.adapters i (.engine a') } t := by
  obtain ⟨others, hbefore, hothers⟩ := exists_ofFn_perm phase.adapters i
  rw [ha] at hbefore
  have hexact : Exact phase.registry (.engine a :: .engine keeper :: others) :=
    h.exact.perm ((hbefore.cons _).trans (.swap ..))
  obtain ⟨hexact', huntouched⟩ := hchange _ hexact
  obtain ⟨binding, hbinding⟩ := Option.isSome_iff_exists.1 h.keeper_open
  have hzero := EngineAdapter.engineId_of_isBoundTo (h.keeper_joins.bound _ hbinding) hbinding
  have hengine := huntouched.engines_eq keeper List.mem_cons_self binding hbinding
  rw [hzero] at hengine
  refine ⟨?_, ?_, h.keeper_joins, h.keeper_open, h.held.of_engine_eq hengine, fun j => ?_⟩
  · exact huntouched.properties_eq.symm ▸ h.describes
  · exact hexact'.perm ((List.Perm.swap ..).trans ((hothers _).symm.cons _))
  · by_cases hj : j = i
    · subst hj
      exact ⟨a', Function.update_self .., hjoins _ hexact List.mem_cons_self⟩
    · obtain ⟨b, hb, hb'⟩ := h.joins j
      exact ⟨b, (Function.update_of_ne hj ..).trans hb, hb'⟩

theorem initAdapter [Machine] :
    Hosts layout kind name keeper (phase.answer w i (.client .initAdapter)).2 t := by
  obtain ⟨a, ha, hjoins⟩ := h.joins i
  have hinit : (phase.adapters i).init.run phase.registry =
      (((a.init.run phase.registry).1.1, .engine (a.init.run phase.registry).1.2),
        (a.init.run phase.registry).2) := by
    rw [ha]
    rfl
  rw [Phase.answer_initAdapter, hinit]
  exact h.replace i ha (fun others hexact => hexact.init) fun others hexact hmem =>
    hjoins.init h.keeper_joins h.keeper_open h.describes hexact hmem

theorem cleanAdapter [Machine] :
    Hosts layout kind name keeper (phase.answer w i (.client .cleanAdapter)).2 t := by
  obtain ⟨a, ha, hjoins⟩ := h.joins i
  have hcleanup : (phase.adapters i).cleanup.run phase.registry =
      (((a.cleanup.run phase.registry).1.1, .engine (a.cleanup.run phase.registry).1.2),
        (a.cleanup.run phase.registry).2) := by
    rw [ha]
    rfl
  rw [Phase.answer_cleanAdapter, hcleanup]
  exact h.replace i ha (fun others hexact => hexact.cleanup) fun _ _ _ => hjoins.cleanup _

/-- Whatever a client asks for beside its tasks. -/
theorem client [Machine] {call : ClientCall} (hcall : ∀ task worker, call ≠ .perform task worker) :
    Hosts layout kind name keeper (phase.answer w i (.client call)).2 t := by
  have hidle (hidle : call.IsIdle) :
      Hosts layout kind name keeper (phase.answer w i (.client call)).2 t := by
    obtain ⟨registry, latch, limiters, hagrees, hafter⟩ :=
      Phase.answer_idle w i phase hidle
    rw [hafter]
    exact h.of_agreesButJournal hagrees latch limiters phase.numbers
  cases call with
  | perform task worker => exact absurd rfl (hcall task worker)
  | initAdapter => exact h.initAdapter i
  | cleanAdapter => exact h.cleanAdapter i
  | _ => exact hidle trivial

/-- A client inserts a row with the names of the layout. -/
theorem insert [Machine] (hfits : layout.fieldCount + 1 < UInt64.size) {row : Row}
    (hnames : row.names = layout.schema) (key : Bytes) :
    ∃ t', t.Inserts key row (phase.answer w i (.workload (.perform (.insert key row)))).1 t' ∧
      Hosts layout kind name keeper (phase.answer w i (.workload (.perform (.insert key row)))).2
        t' := by
  obtain ⟨registry, hagrees, hanswer⟩ := Phase.answer_perform w i phase (.insert key row)
  obtain ⟨a, ha, hjoins⟩ := h.joins i
  rw [ha] at hagrees hanswer
  let performed := ((Adapter.engine a).perform (.insert key row)).run phase.registry
  have hperformed : ∃ t', t.Inserts key row performed.1 t' ∧
      performed.2.HoldsTable layout kind t' := by
    cases hbinding : a.binding with
    | none =>
      obtain ⟨hrefused, hsame⟩ :=
        EngineAdapter.perform_of_binding_none hbinding (.insert key row) phase.registry
      have hfailed : performed.1 = .error _ := hrefused
      exact ⟨t, hfailed ▸ rfl, h.held.of_agreesButJournal hsame⟩
    | some binding =>
      exact Adapter.perform_insert (hjoins.bound binding hbinding) hfits h.held hnames key
  obtain ⟨t', hinserts, hheld⟩ := hperformed
  have hmem : .engine a ∈ .engine keeper :: List.ofFn phase.adapters :=
    List.mem_cons_of_mem _ (List.mem_ofFn.2 ⟨i, ha⟩)
  obtain ⟨hexact, hsetup⟩ := h.exact.perform hmem (.insert key row)
  have hafter : Hosts layout kind name keeper { phase with registry := performed.2 } t' :=
    ⟨hsetup.properties_eq.symm ▸ h.describes, hexact, h.keeper_joins, h.keeper_open, hheld, h.joins⟩
  rw [hanswer]
  exact ⟨t', hinserts, hafter.of_agreesButJournal hagrees phase.latch phase.limiters phase.numbers⟩

end Phase.Hosts

/-! ## Phases of a benchmark -/

/-- Adapters that were just made hold no reference. -/
theorem Exact.append_idle {adapters made : List Adapter} (h : Exact r adapters)
    (hmade : ∀ a ∈ made, ∃ ea, a = .engine ea ∧ ea.binding = none ∧ r.Knows ea) :
    Exact r (made ++ adapters) := by
  induction made with
  | nil => exact h
  | cons a made ih =>
    obtain ⟨⟨ea, rfl, hbinding, hknows⟩, hrest⟩ := List.forall_mem_cons.1 hmade
    exact (ih hrest).cons_idle hbinding hknows

/-- The first adapter that is connected in a process holds the only reference. -/
theorem EngineAdapter.joins_of_connect {p : Properties} (hp : p.Describe layout) {keeper : Adapter}
    (hkeeper : (Adapter.connect kind.memoryName).run (.standard p) = (.ok keeper, r)) :
    ∃ ea, keeper = .engine ea ∧ ea.Joins layout kind kind.memoryName ∧ ea.binding.isSome ∧
      Exact r [.engine ea] := by
  obtain ⟨-, -, -, ea, format, rfl, hbinding, hformat⟩ :=
    Adapter.connect_ok kind.memoryName_ne_basic (kind.shares_standard p) hkeeper
  rw [kind.kind_opener] at hformat
  obtain ⟨x, hfind, hopener, -⟩ := kind.shares_standard p
  obtain ⟨journal, _, ⟨⟩, hinit⟩ := Adapter.init_of_connect kind.memoryName_ne_basic hfind hkeeper
  have hcreated : Exact { Registry.standard p with journal }
      [.engine ⟨kind.memoryName, kind.memoryName, x.opener.kind, none⟩] := by
    refine ((Fleet.exact_start p).of_agreesButJournal ⟨journal, rfl⟩).cons_idle rfl ?_
    exact .of_idle hfind rfl rfl
  have hexact := hcreated.init.1
  rw [hinit] at hexact
  refine ⟨ea, rfl, ?_, hbinding ▸ rfl, hexact⟩
  have hbound := Adapter.isBoundTo_of_select? hp hformat hbinding
  obtain ⟨_, _, _, -, -, rfl, -⟩ := Adapter.init_ok hinit
  exact ⟨rfl, rfl, hopener ▸ kind.kind_opener, fun _ _ => hbound⟩

/-- A keeper that is connected in a fresh process, and adapters made after that. -/
theorem Phase.hosts_of_connect {n : Nat} {p : Properties} (hp : p.Describe layout)
    {keeper : Adapter}
    (hkeeper : (Adapter.connect kind.memoryName).run (.standard p) = (.ok keeper, r))
    {adapters : Fin n → Adapter}
    (hadapters : ∀ i, ((Adapter.create kind.memoryName).run r).1 = .ok (adapters i))
    (numbers : Numbering) (latch : Latch) (limiters : Fin n → Option RateLimiter) :
    ∃ ea, keeper = .engine ea ∧ Phase.Hosts layout kind kind.memoryName ea
      ⟨r, numbers, latch, adapters, limiters⟩ ∅ := by
  obtain ⟨ea, rfl, hjoins, hopen, hexact⟩ := EngineAdapter.joins_of_connect hp hkeeper
  obtain ⟨hproperties, -, ⟨engine, hrun, hengines⟩, -⟩ :=
    Adapter.connect_ok kind.memoryName_ne_basic (kind.shares_standard p) hkeeper
  obtain ⟨x, hx, hkind, -⟩ := hexact.knows ea List.mem_cons_self
  rw [hjoins.handle_eq] at hx
  have hmade (i : Fin n) :
      adapters i = .engine ⟨kind.memoryName, kind.memoryName, x.opener.kind, none⟩ := by
    obtain ⟨journal, hcreate⟩ := Adapter.create_eq kind.memoryName_ne_basic hx
    have hadapter := hadapters i
    rw [hcreate] at hadapter
    exact (Except.ok.inj hadapter).symm
  have hall : Exact r (List.ofFn adapters ++ [.engine ea]) := by
    refine hexact.append_idle fun a ha => ?_
    obtain ⟨i, rfl⟩ := List.mem_ofFn.1 ha
    exact ⟨_, hmade i, rfl, .of_idle hx rfl rfl⟩
  exact ⟨ea, rfl, hproperties ▸ hp, hall.perm List.perm_append_comm, hjoins, hopen,
    .of_opened hp hrun hengines,
    fun i => ⟨_, hmade i, rfl, rfl, hkind.trans hjoins.kind_eq, fun _ => nofun⟩⟩

end StoreBench
