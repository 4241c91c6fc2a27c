import StoreBench.Proofs.TupleStores
/-!
# The columnar format as a table

A tuple engine holds a table of rows with the names of a schema when it is open and the tuple under
every key is made of the key and the values of the row. Operations that keep to the schema are
answered as the table answers them and leave an engine that holds the table after them. No length is
too long for a slot.
-/

namespace StoreBench

/-- An open engine whose tuples are the rows of a table, all of them with the names of a schema. -/
structure TupleEngine.Holds (e : TupleEngine) (layout : ColumnLayout) (t : Table) : Prop where
  isOpen : e.closed = false
  width_eq : e.width = layout.fieldCount + 1
  tuples_eq : e.tuples = t.map ColumnLayout.slots
  names_eq : ∀ (key : Bytes) (row : Row), t[key]? = some row → row.names = layout.schema

namespace TupleEngine.Holds

variable {e : TupleEngine} {layout : ColumnLayout} {t : Table} (h : e.Holds layout t)

theorem fresh (name : String) :
    (TupleEngine.fresh name (layout.fieldCount + 1)).Holds layout ∅ where
  isOpen := rfl
  width_eq := rfl
  tuples_eq := by
    apply Std.ExtTreeMap.ext_getElem?
    simp [TupleEngine.fresh]
  names_eq := by simp

include h

theorem getElem?_tuples (key : Bytes) :
    e.tuples[key]? = t[key]?.map fun row => ColumnLayout.slots key row := by
  rw [h.tuples_eq, Std.ExtTreeMap.getElem?_map]

/-- A table is held in tuples of the layout. -/
theorem shapedBy : e.ShapedBy layout where
  isOpen := h.isOpen
  width_eq := h.width_eq
  shapes key held hheld := by
    rw [h.getElem?_tuples] at hheld
    obtain ⟨row, hrow, rfl⟩ := Option.map_eq_some_iff.1 hheld
    exact ⟨ColumnLayout.length_slots_of_names_eq (h.names_eq key row hrow), rfl⟩

theorem run_get (key : Bytes) :
    e.run (TupleCall.get key).attempt =
      (.ok (t[key]?.map fun row => ColumnLayout.slots key row), e) := by
  rw [TupleEngine.run_get h.isOpen, h.getElem?_tuples]

theorem accepts {row : Row} (hrow : row.names = layout.schema) (key : Bytes) :
    e.accepts key (ColumnLayout.slots key row) = .ok () := by
  have hlength : (ColumnLayout.slots key row).length = e.width := by
    rw [ColumnLayout.length_slots_of_names_eq hrow, h.width_eq]
  unfold TupleEngine.accepts
  rw [if_neg fun hne => hne hlength]
  exact if_pos rfl

theorem insert {row : Row} (hrow : row.names = layout.schema) (key : Bytes) :
    TupleEngine.Holds { e with tuples := e.tuples.insert key (ColumnLayout.slots key row) } layout
      (t.insert key row) where
  isOpen := h.isOpen
  width_eq := h.width_eq
  tuples_eq := by rw [SortedMap.map_insert, ← h.tuples_eq]
  names_eq := by
    intro k r hr
    rw [Std.ExtTreeMap.getElem?_insert] at hr
    split at hr
    · cases hr; exact hrow
    · exact h.names_eq k r hr

theorem erase (key : Bytes) :
    TupleEngine.Holds { e with tuples := e.tuples.erase key } layout (t.erase key) where
  isOpen := h.isOpen
  width_eq := h.width_eq
  tuples_eq := by rw [SortedMap.map_erase, ← h.tuples_eq]
  names_eq := by
    intro k r hr
    rw [Std.ExtTreeMap.getElem?_erase] at hr
    split at hr
    · cases hr
    · exact h.names_eq k r hr

theorem names_of_mem {x : Bytes × Row} (hx : x ∈ t.toList) : x.2.names = layout.schema :=
  h.names_eq x.1 x.2 (Std.ExtTreeMap.mem_toList_iff_getElem?_eq_some.1 hx)

end TupleEngine.Holds

namespace ColumnLayout

variable (layout : ColumnLayout)

/-- Whether all fields are asked for, or some in the order of the schema. -/
def Selects : Selection → Prop
  | none => True
  | some wanted => wanted.Sublist layout.schema

/-- Whether an operation keeps to the schema: every field is inserted, in order, fields are selected
in order, and filters look at no other fields. -/
def Conforms : Operation → Prop
  | .read _ fields => layout.Selects fields
  | .scan _ _ fields => layout.Selects fields
  | .update .. => True
  | .insert _ row => row.names = layout.schema
  | .delete _ => True
  | .filter low high fields =>
    (∀ name ∈ low.names ++ high.names, name ∈ layout.schema) ∧ layout.Selects fields

instance : DecidablePred layout.Selects
  | none => isTrue trivial
  | some wanted => inferInstanceAs (Decidable (wanted.Sublist layout.schema))

instance : DecidablePred layout.Conforms
  | .read _ fields | .scan _ _ fields => inferInstanceAs (Decidable (layout.Selects fields))
  | .insert _ row => inferInstanceAs (Decidable (row.names = layout.schema))
  | .filter low high fields => inferInstanceAs (Decidable
      ((∀ name ∈ low.names ++ high.names, name ∈ layout.schema) ∧ layout.Selects fields))
  | .update .. | .delete _ => isTrue trivial

end ColumnLayout

namespace ColumnarFormat

variable {f : ColumnarFormat} {key : Bytes} {row : Row}

/-- The slots of a row are shown as the table shows the row. -/
theorem view_slots (hrow : row.names = f.layout.schema) {fields : Selection}
    (hfields : f.layout.Selects fields) (key : Bytes) :
    f.view fields (key, ColumnLayout.slots key row) =
      Table.view f.layout.fieldCount key row fields := by
  cases fields with
  | none =>
    rw [view, ColumnLayout.row_slots hrow, Table.view,
      if_pos (ColumnLayout.length_of_names_eq hrow)]
  | some wanted =>
    have hnames : Row.names (Row.pick wanted row) = wanted := Row.names_pick (hrow ▸ hfields)
    have hvalues : ∀ field ∈ Row.pick wanted row,
        f.layout.slotValue? (ColumnLayout.slots key row) field.name = .ok field.value := by
      intro field hfield
      exact ColumnLayout.slotValue?_of_mem hrow ((Row.pick_sublist wanted row).subset hfield)
    have hpicked := ColumnLayout.mapM_slotValue? hvalues
    rwa [hnames] at hpicked

variable {e : TupleEngine} {t : Table} (h : e.Holds f.layout t)
  (hfits : f.layout.fieldCount + 1 < UInt64.size)

include h hfits

theorem run_read {fields : Selection} (hfields : f.layout.Selects fields) (key : Bytes) :
    e.run (f.read key fields) = (t.read f.layout.fieldCount key fields, e) := by
  rw [run_read_view h.shapedBy hfits, h.getElem?_tuples, Table.read]
  cases hrow : t[key]? with
  | none => rfl
  | some row =>
    rw [Option.map_some, Option.elim_some, view_slots (h.names_eq key row hrow) hfields]

theorem run_scan {fields : Selection} (hfields : f.layout.Selects fields) (start : Bytes)
    (count : Nat) :
    e.run (f.scan start count fields) = (t.scan f.layout.fieldCount start count fields, e) := by
  rw [run_scan_view h.shapedBy hfits, h.tuples_eq, SortedMap.entriesFrom_map, ← List.map_take,
    List.mapM_map, Table.scan, ← SortedMap.entriesFrom_eq_filter]
  refine congrArg (·, e) (mapM_congr_of_mem fun x hx => ?_)
  have hmem : x ∈ t.toList := (List.dropWhile_sublist _).subset (List.mem_of_mem_take hx)
  exact view_slots (h.names_of_mem hmem) hfields x.1

/-- The bounds of a filter name the fields it looks at. -/
theorem run_filter {low high : Row} {fields : Selection} (hfields : f.layout.Selects fields)
    (hbounds : ∀ name ∈ low.names ++ high.names, name ∈ f.layout.schema) :
    e.run (f.filter low high fields) = (t.filter f.layout.fieldCount low high fields, e) := by
  cases hpredicate : Predicate.ofBounds? low high with
  | error cause => rw [filter, Table.filter, hpredicate]; rfl
  | ok predicate =>
    have hknown : ∀ name ∈ low.names, name ∈ f.layout.schema :=
      fun name hname => hbounds name (List.mem_append_left _ hname)
    have hshow : ∀ x ∈ t.toList,
        showMatching f.view predicate fields (x.1, ColumnLayout.slots x.1 x.2) =
          (Table.view f.layout.fieldCount x.1 x.2 none).map fun row =>
            if predicate.matchesRow row then some (row.project fields) else none := by
      intro x hx
      have hnames := h.names_of_mem hx
      have hwhole : f.layout.Selects none := trivial
      exact showMatching_of_row (view_slots hnames hwhole x.1) (view_slots hnames hfields x.1)
        predicate
    rw [run_filter_view h.shapedBy hfits hpredicate hknown, h.tuples_eq, Std.ExtTreeMap.toList_map,
      filterMapM_map, filterMapM_congr_of_mem hshow, filterMapM_map_ite, Table.filter, hpredicate]
    rfl

omit hfits in
theorem run_store (hrow : row.names = f.layout.schema) (key : Bytes) :
    e.run (TupleCall.put key (ColumnLayout.slots key row)).attempt =
      (.ok (), { e with tuples := e.tuples.insert key (ColumnLayout.slots key row) }) :=
  TupleEngine.run_put h.isOpen (h.accepts hrow key)

theorem run_update (key : Bytes) (updates : Row) :
    (e.run (f.update key updates)).1 = (t.update key updates).1 ∧
      (e.run (f.update key updates)).2.Holds f.layout (t.update key updates).2 := by
  rw [update, TupleEngine.run, Attempt.evaluate_bind_ok _ (h.run_get key), Table.update]
  cases hrow : t[key]? with
  | none => exact ⟨rfl, h⟩
  | some row =>
    have hnames := h.names_eq key row hrow
    have hoverlaid := ColumnLayout.evaluate_overlaid (ι := tupleCalls) hnames TupleEngine.serve e
      hfits key updates
    simp only [Option.map_some]
    rw [Attempt.evaluate_bind, hoverlaid]
    cases hunknown : row.firstUnknown? updates with
    | some u => exact ⟨rfl, h⟩
    | none =>
      have hassigned : (row.assignAll updates).names = f.layout.schema := by
        rw [Row.names_assignAll, hnames]
      simp only []
      rw [Attempt.evaluate_bind_ok _ (run_store h hassigned key)]
      exact ⟨rfl, h.insert hassigned key⟩

theorem run_insert [Machine] (hrow : row.names = f.layout.schema) (key : Bytes) :
    e.run (f.insert key row) =
      (.ok .ok, { e with tuples := e.tuples.insert key (ColumnLayout.slots key row) }) := by
  have hencode := ColumnLayout.evaluate_encode (ι := tupleCalls) hrow TupleEngine.serve e hfits key
  rw [insert, TupleEngine.run, Attempt.evaluate_bind_ok _ hencode,
    Attempt.evaluate_bind_ok _ (run_store h hrow key)]
  rfl

omit hfits in
theorem run_delete (key : Bytes) :
    e.run (delete key) = (.ok .ok, { e with tuples := e.tuples.erase key }) := by
  rw [delete, TupleEngine.run, Attempt.evaluate_bind_ok _ (TupleEngine.run_delete h.isOpen key)]
  rfl

/-- Every operation that keeps to the schema is answered as the table does and leaves an engine that
holds the table after it. -/
theorem run_perform [Machine] {op : Operation} (hop : f.layout.Conforms op) :
    (e.run (f.perform op)).1 = (t.perform f.layout.fieldCount op).1 ∧
      (e.run (f.perform op)).2.Holds f.layout (t.perform f.layout.fieldCount op).2 := by
  cases op with
  | read key fields =>
    simp only [perform, Table.perform, run_read h hfits hop]
    exact ⟨trivial, h⟩
  | scan start count fields =>
    simp only [perform, Table.perform, run_scan h hfits hop]
    exact ⟨trivial, h⟩
  | update key updates => exact run_update h hfits key updates
  | insert key row =>
    simp only [perform, Table.perform, run_insert h hfits hop]
    exact ⟨trivial, h.insert hop key⟩
  | delete key =>
    simp only [perform, Table.perform, run_delete h]
    exact ⟨trivial, h.erase key⟩
  | filter low high fields =>
    simp only [perform, Table.perform, run_filter h hfits hop.2 hop.1]
    exact ⟨trivial, h⟩

end ColumnarFormat

end StoreBench
