import StoreBench.Proofs.Columnar
import StoreBench.Proofs.History
import StoreBench.Proofs.Schemaless
/-!
# Adapters as tables

An adapter bound to an engine that holds a table answers every operation as the table does, and the
engine then holds the table after it. For key-value adapters that asks for rows short enough to be
encoded, and for updates of stored fields where updates are merged; for tuple adapters it asks for
operations that keep to the schema. What one operation preserves, a history of any length does.
-/

namespace StoreBench

namespace Registry

/-- The first engine of the registry is a key-value engine that merges rows and holds a table. -/
def HoldsRows (r : Registry) (t : Table) : Prop :=
  ∃ e, r.Keeps 0 (.keyValue e) ∧ e.Holds t ∧ e.mergeOperator = some Row.mergeEncoded

/-- The first engine of the registry is a tuple engine that holds a table. -/
def HoldsTuples (layout : ColumnLayout) (r : Registry) (t : Table) : Prop :=
  ∃ e, r.Keeps 0 (.tuple e) ∧ e.Holds layout t

theorem holdsRows_of_engines_eq {r : Registry}
    (h : r.engines = [.keyValue (.fresh "memory" (some Row.mergeEncoded))]) : r.HoldsRows ∅ :=
  ⟨_, by rw [Keeps, h]; rfl, .fresh "memory" _, rfl⟩

theorem holdsTuples_of_engines_eq {r : Registry} {layout : ColumnLayout}
    (h : r.engines = [.tuple (.fresh "tuple" (layout.fieldCount + 1))]) :
    r.HoldsTuples layout ∅ :=
  ⟨_, by rw [Keeps, h]; rfl, .fresh "tuple"⟩

end Registry

namespace Adapter

variable {p q : Properties} {r s : Registry} {t : Table} {op : Operation} {fieldCount : Nat}
  {layout : ColumnLayout} {ea ea' : EngineAdapter} {history : List Operation}

theorem stored_of_holdsRows {f : SchemalessFormat} (hbinding : ea.binding = some (.keyValue 0 f))
    (hr : r.HoldsRows t) :
    (engine ea).stored r = some (.keyValue (t.map fun _ row => row.bytes)) := by
  obtain ⟨e, hkeeps, hholds, -⟩ := hr
  have hengine : r.engines[0]? = some (.keyValue e) := hkeeps
  simp [stored, hbinding, Binding.engineId, hengine, Engine.contents, hholds.entries_eq]

theorem stored_of_holdsTuples (hbinding : ea.binding = some (.tuple 0 ⟨layout⟩))
    (hr : r.HoldsTuples layout t) :
    (engine ea).stored r = some (.tuple (t.map ColumnLayout.slots)) := by
  obtain ⟨e, hkeeps, hholds⟩ := hr
  have hengine : r.engines[0]? = some (.tuple e) := hkeeps
  simp [stored, hbinding, Binding.engineId, hengine, Engine.contents, hholds.tuples_eq]

/-! ## One operation -/

theorem perform_overlaying [Machine]
    (hbinding : ea.binding = some (.keyValue 0 ⟨fieldCount, false⟩))
    (hr : r.HoldsRows t) (hop : t.Admits op) :
    (((engine ea).perform op).run r).1 = (t.perform fieldCount op).1 ∧
      (((engine ea).perform op).run r).2.HoldsRows (t.perform fieldCount op).2 := by
  obtain ⟨e, hkeeps, hholds, hmerge⟩ := hr
  obtain ⟨hanswer, hkeeps'⟩ := EngineAdapter.perform_keyValue hbinding hkeeps op
  obtain ⟨htable, hholds'⟩ := SchemalessFormat.run_perform ⟨fieldCount, false⟩ hholds rfl hop
  refine ⟨hanswer.trans htable, _, hkeeps', hholds', ?_⟩
  rw [KeyValueEngine.mergeOperator_run, hmerge]

theorem perform_tuple [Machine] (hbinding : ea.binding = some (.tuple 0 ⟨layout⟩))
    (hfits : layout.fieldCount + 1 < UInt64.size) (hr : r.HoldsTuples layout t)
    (hop : layout.Conforms op) :
    (((engine ea).perform op).run r).1 = (t.perform layout.fieldCount op).1 ∧
      (((engine ea).perform op).run r).2.HoldsTuples layout
        (t.perform layout.fieldCount op).2 := by
  obtain ⟨e, hkeeps, hholds⟩ := hr
  obtain ⟨hanswer, hkeeps'⟩ := EngineAdapter.perform_tuple hbinding hkeeps op
  obtain ⟨htable, hholds'⟩ := ColumnarFormat.run_perform (f := ⟨layout⟩) hholds hfits hop
  exact ⟨hanswer.trans htable, _, hkeeps', hholds'⟩

/-- The bytes under a key of the key-value engine an adapter is bound to. -/
def storedValue? (a : Adapter) (r : Registry) (key : Bytes) : Option Bytes :=
  match a.stored r with
  | some (.keyValue entries) => entries[key]?
  | _ => none

theorem storedValue?_of_holdsRows {f : SchemalessFormat}
    (hbinding : ea.binding = some (.keyValue 0 f)) (hr : r.HoldsRows t) (key : Bytes) :
    (engine ea).storedValue? r key = t[key]?.map Row.bytes := by
  simp only [storedValue?, stored_of_holdsRows hbinding hr, Std.ExtTreeMap.getElem?_map]

/-- What is stored decodes to the row of the table. -/
theorem getElem?_of_storedValue? {f : SchemalessFormat}
    (hbinding : ea.binding = some (.keyValue 0 f)) (hr : r.HoldsRows t) {key value : Bytes}
    {row : Row} (hvalue : (engine ea).storedValue? r key = some value)
    (hdecode : Row.decode? value = .ok row) : t[key]? = some row := by
  rw [storedValue?_of_holdsRows hbinding hr] at hvalue
  obtain ⟨held, hheld, rfl⟩ := Option.map_eq_some_iff.1 hvalue
  obtain ⟨e, -, hholds, -⟩ := hr
  have hencoded := Row.decode?_eq_ok_iff.2 ⟨hholds.encodable key held hheld, rfl⟩
  cases hencoded.symm.trans hdecode
  exact hheld

/-- Whether an update of a present key names only fields of the row stored under it. -/
def NamesStored (a : Adapter) (r : Registry) : Operation → Prop
  | .update key updates => ∀ value row, a.storedValue? r key = some value →
      Row.decode? value = .ok row → ∀ u ∈ updates, u.name ∈ row.names
  | _ => True

theorem firstUnknown?_of_namesStored {f : SchemalessFormat}
    (hbinding : ea.binding = some (.keyValue 0 f)) (hr : r.HoldsRows t)
    (hknown : (engine ea).NamesStored r op) {key : Bytes} {updates row : Row}
    (hop : op = .update key updates) (hrow : t[key]? = some row) :
    row.firstUnknown? updates = none := by
  subst hop
  obtain ⟨e, hkeeps, hholds, hmerge⟩ := hr
  refine Row.firstUnknown?_eq_none_iff.2 (hknown row.bytes row ?_ ?_)
  · rw [storedValue?_of_holdsRows hbinding ⟨e, hkeeps, hholds, hmerge⟩, hrow, Option.map_some]
  · exact Row.decode?_eq_ok_iff.2 ⟨hholds.encodable key row hrow, rfl⟩

theorem perform_merging [Machine] (hbinding : ea.binding = some (.keyValue 0 ⟨fieldCount, true⟩))
    (hr : r.HoldsRows t) (hop : op.Encodable) (hknown : (engine ea).NamesStored r op) :
    (((engine ea).perform op).run r).1 = (t.perform fieldCount op).1 ∧
      (((engine ea).perform op).run r).2.HoldsRows (t.perform fieldCount op).2 := by
  have hnames : ∀ key updates, op = .update key updates →
      ∀ row : Row, t[key]? = some row → row.firstUnknown? updates = none :=
    fun _ _ hupdate _ hrow => firstUnknown?_of_namesStored hbinding hr hknown hupdate hrow
  obtain ⟨e, hkeeps, hholds, hmerge⟩ := hr
  obtain ⟨hanswer, hkeeps'⟩ := EngineAdapter.perform_keyValue hbinding hkeeps op
  obtain ⟨htable, hholds'⟩ :=
    SchemalessFormat.run_perform_merging ⟨fieldCount, true⟩ hholds rfl hmerge hop hnames
  refine ⟨hanswer.trans htable, _, hkeeps', hholds', ?_⟩
  rw [KeyValueEngine.mergeOperator_run, hmerge]

/-- A key-value adapter refuses to insert a row it cannot encode. -/
theorem perform_insert_refused [Machine] {f : SchemalessFormat}
    (hbinding : ea.binding = some (.keyValue 0 f)) (hr : r.HoldsRows t) {row : Row}
    (hrow : ¬ row.Encodable) (key : Bytes) :
    ∃ part length, (((engine ea).perform (.insert key row)).run r).1 =
        .error (.raised (.invalidArgument (.longPart part length))) ∧
      (((engine ea).perform (.insert key row)).run r).2.HoldsRows t := by
  obtain ⟨part, length, hencode⟩ := Row.exists_longPart_of_not_encodable hrow
  obtain ⟨e, hkeeps, hholds⟩ := hr
  obtain ⟨hanswer, hkeeps'⟩ := EngineAdapter.perform_keyValue hbinding hkeeps (.insert key row)
  have hrefused : e.run (f.perform (.insert key row)) = _ :=
    SchemalessFormat.run_insert_refused hencode key
  rw [hrefused] at hanswer hkeeps'
  exact ⟨part, length, hanswer, e, hkeeps', hholds⟩

/-- One that merges updates refuses to update a stored row by what it cannot encode, whatever the
row would be. -/
theorem perform_update_refused [Machine]
    (hbinding : ea.binding = some (.keyValue 0 ⟨fieldCount, true⟩)) (hr : r.HoldsRows t)
    {key : Bytes} {row updates : Row} (hrow : t[key]? = some row) (hupdates : ¬ updates.Encodable) :
    ∃ part length, (((engine ea).perform (.update key updates)).run r).1 =
      .error (.raised (.invalidArgument (.longPart part length))) := by
  obtain ⟨part, length, hencode⟩ := Row.exists_longPart_of_not_encodable hupdates
  obtain ⟨e, hkeeps, hholds, -⟩ := hr
  have hanswer := (EngineAdapter.perform_keyValue hbinding hkeeps (.update key updates)).1
  have hrefused : e.run (SchemalessFormat.perform ⟨fieldCount, true⟩ (.update key updates)) = _ :=
    SchemalessFormat.run_mergeUpdate_refused hholds hrow hencode
  rw [hrefused] at hanswer
  exact ⟨part, length, hanswer⟩

/-- One operation of an adapter that merges updates and of one that overlays them. -/
theorem perform_lockstep [Machine] (hbinding : ea.binding = some (.keyValue 0 ⟨fieldCount, true⟩))
    (hbinding' : ea'.binding = some (.keyValue 0 ⟨fieldCount, false⟩))
    (hr : r.HoldsRows t) (hs : s.HoldsRows t) (hknown : (engine ea).NamesStored r op)
    (hlong : op.kind = .update → ¬ (((engine ea).exchange op).run r).1.TooLong) :
    (((engine ea).perform op).run r).1 = (((engine ea').perform op).run s).1 ∧
      ∃ t', (((engine ea).perform op).run r).2.HoldsRows t' ∧
        (((engine ea').perform op).run s).2.HoldsRows t' := by
  have hnames : ∀ key updates, op = .update key updates →
      ∀ row : Row, t[key]? = some row → row.firstUnknown? updates = none :=
    fun _ _ hupdate _ hrow => firstUnknown?_of_namesStored hbinding hr hknown hupdate hrow
  obtain ⟨e, hkeeps, hholds, hmerge⟩ := hr
  obtain ⟨e', hkeeps', hholds', hmerge'⟩ := hs
  obtain ⟨hanswer, hnext⟩ := EngineAdapter.perform_keyValue hbinding hkeeps op
  obtain ⟨hanswer', hnext'⟩ := EngineAdapter.perform_keyValue hbinding' hkeeps' op
  have hrefused : op.kind = .update → ∀ part length,
      (e.run (SchemalessFormat.perform ⟨fieldCount, true⟩ op)).1 ≠
        .error (.raised (.invalidArgument (.longPart part length))) := by
    intro hkind part length hrefused
    exact hlong hkind ⟨part, length, hanswer.trans hrefused⟩
  obtain ⟨hsame, t', hheld, hheld'⟩ :=
    SchemalessFormat.run_perform_lockstep ⟨fieldCount, true⟩ hholds (g := ⟨fieldCount, false⟩)
      hholds' rfl rfl rfl hmerge hnames hrefused
  refine ⟨hanswer.trans (hsame.trans hanswer'.symm), t', ⟨_, hnext, hheld, ?_⟩,
    _, hnext', hheld', ?_⟩
  · rw [KeyValueEngine.mergeOperator_run, hmerge]
  · rw [KeyValueEngine.mergeOperator_run, hmerge']

/-! ## Histories -/

/-- A key-value adapter acts like a table as long as it refuses nothing for its length. -/
theorem performHistory_overlaying [Machine]
    (hbinding : ea.binding = some (.keyValue 0 ⟨fieldCount, false⟩)) (hr : r.HoldsRows t)
    (hlong : ∀ x ∈ (((engine ea).performHistory history).run r).1, ¬ x.TooLong) :
    (((engine ea).performHistory history).run r).1 =
        ((Table.performAll fieldCount history).run t).1 ∧
      (((engine ea).performHistory history).run r).2.HoldsRows
        ((Table.performAll fieldCount history).run t).2 := by
  refine run_mapM_simulates (P := fun r op => ¬ (((engine ea).exchange op).run r).1.TooLong)
    ?_ hr ?_
  · intro op r t hr hop
    by_cases hadmits : t.Admits op
    · obtain ⟨hanswer, hnext⟩ := perform_overlaying hbinding hr hadmits
      exact ⟨congrArg (Exchange.mk op) hanswer, hnext⟩
    · obtain ⟨e, hkeeps, hholds, -⟩ := hr
      obtain ⟨part, length, hrefused⟩ :=
        SchemalessFormat.run_perform_refused ⟨fieldCount, false⟩ hholds rfl hadmits
      have hanswer := (EngineAdapter.perform_keyValue hbinding hkeeps op).1
      rw [hrefused] at hanswer
      exact absurd ⟨part, length, hanswer⟩ hop
  · rintro done op rest rfl
    exact hlong _ (mem_run_mapM _ done op rest r)

/-- A tuple adapter acts like a table as long as operations keep to the schema. -/
theorem performHistory_tuple [Machine] (hbinding : ea.binding = some (.tuple 0 ⟨layout⟩))
    (hfits : layout.fieldCount + 1 < UInt64.size) (hr : r.HoldsTuples layout t)
    (hconforms : ∀ op ∈ history, layout.Conforms op) :
    (((engine ea).performHistory history).run r).1 =
        ((Table.performAll layout.fieldCount history).run t).1 ∧
      (((engine ea).performHistory history).run r).2.HoldsTuples layout
        ((Table.performAll layout.fieldCount history).run t).2 := by
  refine run_mapM_simulates (P := fun _ op => layout.Conforms op) ?_ hr ?_
  · intro op r t hr hop
    obtain ⟨hanswer, hnext⟩ := perform_tuple hbinding hfits hr hop
    exact ⟨congrArg (Exchange.mk op) hanswer, hnext⟩
  · rintro done op rest rfl
    exact hconforms op (List.mem_append_right done List.mem_cons_self)

/-- Adapters that hold the same table stay so through a history. -/
theorem performHistory_lockstep [Machine]
    (hbinding : ea.binding = some (.keyValue 0 ⟨fieldCount, true⟩))
    (hbinding' : ea'.binding = some (.keyValue 0 ⟨fieldCount, false⟩))
    (hr : r.HoldsRows t) (hs : s.HoldsRows t)
    (hknown : ∀ done op rest, history = done ++ op :: rest →
      (engine ea).NamesStored (((engine ea).performHistory done).run r).2 op)
    (hlong : ∀ x ∈ (((engine ea).performHistory history).run r).1,
      x.op.kind = .update → ¬ x.TooLong) :
    (((engine ea).performHistory history).run r).1 =
        (((engine ea').performHistory history).run s).1 ∧
      ∃ t', (((engine ea).performHistory history).run r).2.HoldsRows t' ∧
        (((engine ea').performHistory history).run s).2.HoldsRows t' := by
  refine run_mapM_simulates (I := fun (r s : Registry) => ∃ t, r.HoldsRows t ∧ s.HoldsRows t)
    (P := fun r op => (engine ea).NamesStored r op ∧
      (op.kind = .update → ¬ (((engine ea).exchange op).run r).1.TooLong)) ?_ ⟨t, hr, hs⟩ ?_
  · rintro op r s ⟨t, hr, hs⟩ ⟨hknown, hlong⟩
    obtain ⟨hanswer, hnext⟩ := perform_lockstep hbinding hbinding' hr hs hknown hlong
    exact ⟨congrArg (Exchange.mk op) hanswer, hnext⟩
  · rintro done op rest rfl
    exact ⟨hknown done op rest rfl, hlong _ (mem_run_mapM _ done op rest r)⟩

/-- Operations whose parts can all be encoded are never refused for their length. -/
theorem not_tooLong_of_encodable [Machine] {mergesUpdates : Bool}
    (hbinding : ea.binding = some (.keyValue 0 ⟨fieldCount, mergesUpdates⟩)) (hr : r.HoldsRows t)
    (hencodable : ∀ op ∈ history, op.Encodable)
    (hknown : mergesUpdates = true → ∀ done op rest, history = done ++ op :: rest →
      (engine ea).NamesStored (((engine ea).performHistory done).run r).2 op) :
    ∀ x ∈ (((engine ea).performHistory history).run r).1, ¬ x.TooLong := by
  have hanswers : (((engine ea).performHistory history).run r).1 =
      ((Table.performAll fieldCount history).run t).1 := by
    refine (run_mapM_simulates (I := fun (r : Registry) t => r.HoldsRows t) (P := fun r op =>
      op.Encodable ∧ (mergesUpdates = true → (engine ea).NamesStored r op)) ?_ hr ?_).1
    · rintro op r t hr ⟨hop, hknown⟩
      cases mergesUpdates with
      | true =>
        obtain ⟨hanswer, hnext⟩ := perform_merging hbinding hr hop (hknown rfl)
        exact ⟨congrArg (Exchange.mk op) hanswer, hnext⟩
      | false =>
        obtain ⟨e, hkeeps, hholds, hmerge⟩ := hr
        obtain ⟨hanswer, hnext⟩ :=
          perform_overlaying hbinding ⟨e, hkeeps, hholds, hmerge⟩ (hholds.admits hop)
        exact ⟨congrArg (Exchange.mk op) hanswer, hnext⟩
    · rintro done op rest rfl
      exact ⟨hencodable op (List.mem_append_right done List.mem_cons_self),
        fun hmerges => hknown hmerges done op rest rfl⟩
  rw [hanswers]
  exact Table.not_tooLong_performAll history

end Adapter

end StoreBench
