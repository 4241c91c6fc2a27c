import StoreBench.Proofs.StoredBytes
/-!
# The schemaless format as a table

A key-value engine holds a table when it is open and the value under every key is the encoding of
the row under that key. Every operation of the schemaless format answers as the table does and
leaves an engine that holds the table after it, unless the row to be stored has a part too long to
be encoded. Such an operation is refused and changes nothing. Merging updates makes no difference
where the updates name fields of the stored row.
-/

namespace StoreBench

/-- An open engine whose entries are the encoded rows of a table. -/
structure KeyValueEngine.Holds (e : KeyValueEngine) (t : Table) : Prop where
  isOpen : e.closed = false
  entries_eq : e.entries = t.map fun _ row => row.bytes
  encodable : ∀ (key : Bytes) (row : Row), t[key]? = some row → row.Encodable

namespace KeyValueEngine.Holds

variable {e : KeyValueEngine} {t : Table} (h : e.Holds t)

theorem fresh (name : String) (mergeOperator : Option MergeOperator) :
    (KeyValueEngine.fresh name mergeOperator).Holds ∅ where
  isOpen := rfl
  entries_eq := by
    apply Std.ExtTreeMap.ext_getElem?
    simp [KeyValueEngine.fresh]
  encodable := by simp

include h

theorem getElem?_entries (key : Bytes) : e.entries[key]? = t[key]?.map Row.bytes := by
  rw [h.entries_eq, Std.ExtTreeMap.getElem?_map]

theorem entriesFrom_entries (start : Bytes) :
    e.entries.entriesFrom start = (t.entriesFrom start).map fun x => (x.1, x.2.bytes) := by
  rw [h.entries_eq, SortedMap.entriesFrom_map]

theorem run_get (key : Bytes) :
    e.run (KeyValueCall.get key).attempt = (.ok (t[key]?.map Row.bytes), e) := by
  rw [KeyValueEngine.run_get h.isOpen, h.getElem?_entries]

theorem serve_get (key : Bytes) :
    e.serve (.get key) = (.ok (t[key]?.map Row.bytes), e) :=
  (KeyValueEngine.run_attempt (.get key) e).symm.trans (h.run_get key)

theorem serve_put (key value : Bytes) : e.serve (.put key value) = (.ok (), e.store key value) :=
  (KeyValueEngine.run_attempt (.put key value) e).symm.trans
    (KeyValueEngine.run_put h.isOpen key value)

/-- Merging into a stored row stores the merged row. -/
theorem serve_merge {key : Bytes} {row updates : Row} (hrow : t[key]? = some row)
    (hmerge : e.mergeOperator = some Row.mergeEncoded) (hupdates : updates.Encodable) :
    e.serve (.merge key updates.bytes) = (.ok (), e.store key (row.merge updates).bytes) := by
  have hencodable := h.encodable key row hrow
  have hmerged : (Row.mergeEncoded e.entries[key]? updates.bytes).value =
      .ok (row.merge updates).bytes := by
    rw [h.getElem?_entries, hrow, Option.map_some, Row.value_mergeEncoded hencodable hupdates,
      Row.encode?_eq_bytes (hencodable.merge hupdates)]
    rfl
  rw [← KeyValueEngine.run_attempt]
  exact KeyValueEngine.run_merge h.isOpen hmerge key updates.bytes hmerged

theorem store {row : Row} (hrow : row.Encodable) (key : Bytes) :
    (e.store key row.bytes).Holds (t.insert key row) where
  isOpen := h.isOpen
  entries_eq := by
    rw [SortedMap.map_insert, ← h.entries_eq]
    rfl
  encodable := by
    intro k r hr
    rw [Std.ExtTreeMap.getElem?_insert] at hr
    split at hr
    · cases hr; exact hrow
    · exact h.encodable k r hr

theorem drop (key : Bytes) : (e.drop key).Holds (t.erase key) where
  isOpen := h.isOpen
  entries_eq := by
    rw [SortedMap.map_erase, ← h.entries_eq]
    rfl
  encodable := by
    intro k r hr
    rw [Std.ExtTreeMap.getElem?_erase] at hr
    split at hr
    · cases hr
    · exact h.encodable k r hr

theorem encodable_of_mem {x : Bytes × Row} (hx : x ∈ t.toList) : x.2.Encodable :=
  h.encodable x.1 x.2 (Std.ExtTreeMap.mem_toList_iff_getElem?_eq_some.1 hx)

end KeyValueEngine.Holds

/-- Whether the fields an operation writes are short enough to be encoded. -/
def Operation.Encodable : Operation → Prop
  | .insert _ row => row.Encodable
  | .update _ updates => updates.Encodable
  | _ => True

instance : DecidablePred Operation.Encodable
  | .insert _ row => inferInstanceAs (Decidable row.Encodable)
  | .update _ updates => inferInstanceAs (Decidable updates.Encodable)
  | .read .. | .scan .. | .delete _ | .filter .. => isTrue trivial

/-- Whether the row an operation stores is short enough to be encoded. -/
def Table.Admits (t : Table) : Operation → Prop
  | .insert _ row => row.Encodable
  | .update key updates => ∀ row : Row, t[key]? = some row → row.firstUnknown? updates = none →
      (row.assignAll updates).Encodable
  | _ => True

theorem KeyValueEngine.Holds.admits {e : KeyValueEngine} {t : Table} (h : e.Holds t)
    {op : Operation} (hop : op.Encodable) : t.Admits op := by
  cases op with
  | insert key row => exact hop
  | update key updates =>
    intro row hrow _
    exact (h.encodable key row hrow).assignAll hop
  | _ => trivial

namespace SchemalessFormat

variable (f : SchemalessFormat)

/-- A stored row is shown as the table shows it. -/
theorem view_bytes (key : Bytes) {row : Row} (hrow : row.Encodable) (fields : Selection) :
    f.view fields (key, row.bytes) = Table.view f.fieldCount key row fields := by
  cases fields with
  | some wanted =>
    rw [view, Row.value_select, Row.select?_bytes hrow]
    rfl
  | none =>
    have hdecode : (Row.decode row.bytes).value = .ok row := by
      rw [Row.value_decode, Row.decode?_eq_ok_iff.2 ⟨hrow, rfl⟩]
      rfl
    rw [view, hdecode]
    rfl

variable {e : KeyValueEngine} {t : Table} (h : e.Holds t)

include h

theorem run_read (key : Bytes) (fields : Selection) :
    e.run (f.read key fields) = (t.read f.fieldCount key fields, e) := by
  rw [f.run_read_view h.isOpen, h.getElem?_entries, Table.read]
  cases hrow : t[key]? with
  | none => rfl
  | some row => rw [Option.map_some, Option.elim_some, f.view_bytes key (h.encodable key row hrow)]

theorem run_scan (start : Bytes) (count : Nat) (fields : Selection) :
    e.run (f.scan start count fields) = (t.scan f.fieldCount start count fields, e) := by
  rw [f.run_scan_view h.isOpen, h.entriesFrom_entries, ← List.map_take, List.mapM_map, Table.scan,
    ← SortedMap.entriesFrom_eq_filter]
  refine congrArg (·, e) (mapM_congr_of_mem fun x hx => ?_)
  have hmem : x ∈ t.toList := (List.dropWhile_sublist _).subset (List.mem_of_mem_take hx)
  exact f.view_bytes x.1 (h.encodable_of_mem hmem) fields

theorem run_filter (low high : Row) (fields : Selection) :
    e.run (f.filter low high fields) = (t.filter f.fieldCount low high fields, e) := by
  cases hpredicate : Predicate.ofBounds? low high with
  | error cause => rw [filter, Table.filter, hpredicate]; rfl
  | ok predicate =>
    have hshow : ∀ x ∈ t.toList, showMatching f.view predicate fields (x.1, x.2.bytes) =
        (Table.view f.fieldCount x.1 x.2 none).map fun row =>
          if predicate.matchesRow row then some (row.project fields) else none := by
      intro x hx
      have hview := f.view_bytes x.1 (h.encodable_of_mem hx)
      exact showMatching_of_row (hview none) (hview fields) predicate
    rw [f.run_filter_view h.isOpen hpredicate, h.entries_eq, Std.ExtTreeMap.toList_map,
      filterMapM_map, filterMapM_congr_of_mem hshow, filterMapM_map_ite, Table.filter, hpredicate]
    rfl

theorem run_delete (key : Bytes) : e.run (delete key) = (.ok .ok, e.drop key) := by
  rw [delete, KeyValueEngine.run,
    Attempt.evaluate_bind_ok _ (KeyValueEngine.run_delete h.isOpen key)]
  rfl

omit h in
theorem run_encode {row : Row} (hrow : row.Encodable) :
    e.run (.ofProgram row.encode) = (.ok row.bytes, e) := by
  rw [KeyValueEngine.run, Attempt.evaluate_ofProgram, Row.evaluate_encode,
    Row.encode?_eq_bytes hrow]
  rfl

theorem run_insert {row : Row} (hrow : row.Encodable) (key : Bytes) :
    e.run (insert key row) = (.ok .ok, e.store key row.bytes) := by
  rw [insert, KeyValueEngine.run, Attempt.evaluate_bind_ok _ (run_encode hrow),
    Attempt.evaluate_bind_ok _ (KeyValueEngine.run_put h.isOpen key row.bytes)]
  rfl

omit h in
/-- A row that is too long for its encoding is refused before it is stored. -/
theorem run_insert_refused {row : Row} {cause : BadArgument} (hrow : row.encode? = .error cause)
    (key : Bytes) : e.run (insert key row) = (.error (.raised (.invalidArgument cause)), e) := by
  rw [insert, KeyValueEngine.run, Attempt.evaluate_bind, Attempt.evaluate_ofProgram,
    Row.evaluate_encode, hrow]
  rfl

theorem run_decode {key : Bytes} {row : Row} (hrow : t[key]? = some row) :
    e.run (.ofProgram (Row.decode row.bytes)) = (.ok row, e) := by
  have hdecode : Row.decode? row.bytes = .ok row :=
    Row.decode?_eq_ok_iff.2 ⟨h.encodable key row hrow, rfl⟩
  rw [KeyValueEngine.run, Attempt.evaluate_ofProgram, Row.evaluate_decode, hdecode]
  rfl

/-! ## Updates -/

theorem run_update_absent {key : Bytes} (hkey : t[key]? = none) (updates : Row) :
    e.run (f.update key updates) = (.ok .notFound, e) := by
  have hget : e.run (KeyValueCall.get key).attempt = (.ok none, e) := by
    rw [h.run_get, hkey, Option.map_none]
  unfold update
  split
  · rw [mergeUpdate, KeyValueEngine.run, Attempt.evaluate_bind_ok _ hget]
    rfl
  · rw [overlayStored, KeyValueEngine.run, Attempt.evaluate_bind_ok _ hget]
    rfl

/-- Overlaying a stored row, up to the moment the new row is stored. -/
theorem run_overlayStored {key : Bytes} {row : Row} (hrow : t[key]? = some row) (updates : Row) :
    e.run (overlayStored key updates) =
      match row.firstUnknown? updates with
      | some u => (.error (.raised (.unknownField u.name)), e)
      | none => e.run (insert key (row.assignAll updates)) := by
  have hget : e.run (KeyValueCall.get key).attempt = (.ok (some row.bytes), e) := by
    rw [h.run_get, hrow, Option.map_some]
  rw [overlayStored, KeyValueEngine.run, Attempt.evaluate_bind_ok _ hget]
  simp only []
  rw [Attempt.evaluate_bind_ok _ (run_decode h hrow), Row.overlay?_eq]
  cases row.firstUnknown? updates with
  | some u => rfl
  | none => rfl

/-- An update of a stored row by a merge. -/
theorem run_mergeUpdate {key : Bytes} {row updates : Row} (hrow : t[key]? = some row)
    (hmerge : e.mergeOperator = some Row.mergeEncoded) (hupdates : updates.Encodable) :
    e.run (mergeUpdate key updates) = (.ok .ok, e.store key (row.merge updates).bytes) := by
  have hget : e.run (KeyValueCall.get key).attempt = (.ok (some row.bytes), e) := by
    rw [h.run_get, hrow, Option.map_some]
  have hmerged := h.serve_merge hrow hmerge hupdates
  rw [← KeyValueEngine.run_attempt] at hmerged
  rw [mergeUpdate, KeyValueEngine.run, Attempt.evaluate_bind_ok _ hget]
  simp only []
  rw [Attempt.evaluate_bind_ok _ (run_encode hupdates), Attempt.evaluate_bind_ok _ hmerged]
  rfl

theorem run_mergeUpdate_refused {key : Bytes} {row updates : Row} {cause : BadArgument}
    (hrow : t[key]? = some row) (hupdates : updates.encode? = .error cause) :
    e.run (mergeUpdate key updates) = (.error (.raised (.invalidArgument cause)), e) := by
  have hget : e.run (KeyValueCall.get key).attempt = (.ok (some row.bytes), e) := by
    rw [h.run_get, hrow, Option.map_some]
  rw [mergeUpdate, KeyValueEngine.run, Attempt.evaluate_bind_ok _ hget]
  simp only []
  rw [Attempt.evaluate_bind, Attempt.evaluate_ofProgram, Row.evaluate_encode, hupdates]
  rfl

/-! ## Any operation -/

/-- An update as the table makes it, in the engine that stores the row it leaves. -/
theorem run_update {key : Bytes} {updates : Row} (hmerges : f.mergesUpdates = false)
    (hop : t.Admits (.update key updates)) :
    (e.run (f.update key updates)).1 = (t.update key updates).1 ∧
      (e.run (f.update key updates)).2.Holds (t.update key updates).2 := by
  cases hrow : t[key]? with
  | none =>
    rw [f.run_update_absent h hrow]
    simp only [Table.update, hrow]
    exact ⟨trivial, h⟩
  | some row =>
    simp only [update, hmerges, Bool.false_eq_true, if_false, Table.update, hrow]
    rw [run_overlayStored h hrow]
    cases hunknown : row.firstUnknown? updates with
    | some u => exact ⟨rfl, h⟩
    | none =>
      have hassigned := hop row hrow hunknown
      rw [run_insert h hassigned]
      exact ⟨rfl, h.store hassigned key⟩

/-- Merging an update of known fields leaves the row the table does. -/
theorem run_update_merging {key : Bytes} {updates : Row} (hmerges : f.mergesUpdates = true)
    (hmerge : e.mergeOperator = some Row.mergeEncoded)
    (hknown : ∀ row : Row, t[key]? = some row → row.firstUnknown? updates = none)
    (hupdates : ∀ row : Row, t[key]? = some row → updates.Encodable) :
    (e.run (f.update key updates)).1 = (t.update key updates).1 ∧
      (e.run (f.update key updates)).2.Holds (t.update key updates).2 := by
  cases hrow : t[key]? with
  | none =>
    rw [f.run_update_absent h hrow]
    simp only [Table.update, hrow]
    exact ⟨trivial, h⟩
  | some row =>
    simp only [update, hmerges, if_true, Table.update, hrow, hknown row hrow]
    rw [run_mergeUpdate h hrow hmerge (hupdates row hrow),
      Row.merge_eq_assignAll (Row.firstUnknown?_eq_none_iff.1 (hknown row hrow))]
    exact ⟨rfl, h.store ((h.encodable key row hrow).assignAll (hupdates row hrow)) key⟩

/-- What is neither an update nor a row too long is answered as the table does, whether or not
updates are merged. -/
theorem run_perform_of_not_update {op : Operation} (hop : t.Admits op) (hkind : op.kind ≠ .update) :
    (e.run (f.perform op)).1 = (t.perform f.fieldCount op).1 ∧
      (e.run (f.perform op)).2.Holds (t.perform f.fieldCount op).2 := by
  cases op with
  | read key fields =>
    simp only [perform, Table.perform, f.run_read h]
    exact ⟨trivial, h⟩
  | scan start count fields =>
    simp only [perform, Table.perform, f.run_scan h]
    exact ⟨trivial, h⟩
  | update key updates => exact absurd rfl hkind
  | insert key row =>
    simp only [perform, Table.perform, run_insert h hop]
    exact ⟨trivial, h.store hop key⟩
  | delete key =>
    simp only [perform, Table.perform, run_delete h]
    exact ⟨trivial, h.drop key⟩
  | filter low high fields =>
    simp only [perform, Table.perform, f.run_filter h]
    exact ⟨trivial, h⟩

/-- Every operation is answered as the table does and leaves an engine that holds the table after
it. -/
theorem run_perform {op : Operation} (hmerges : f.mergesUpdates = false) (hop : t.Admits op) :
    (e.run (f.perform op)).1 = (t.perform f.fieldCount op).1 ∧
      (e.run (f.perform op)).2.Holds (t.perform f.fieldCount op).2 := by
  cases op with
  | update key updates => exact f.run_update h hmerges hop
  | _ => exact f.run_perform_of_not_update h hop (by simp [Operation.kind])

/-- Merging makes no difference where updates name stored fields and can be encoded. -/
theorem run_perform_merging {op : Operation} (hmerges : f.mergesUpdates = true)
    (hmerge : e.mergeOperator = some Row.mergeEncoded) (hop : op.Encodable)
    (hknown : ∀ key updates, op = .update key updates →
      ∀ row : Row, t[key]? = some row → row.firstUnknown? updates = none) :
    (e.run (f.perform op)).1 = (t.perform f.fieldCount op).1 ∧
      (e.run (f.perform op)).2.Holds (t.perform f.fieldCount op).2 := by
  cases op with
  | update key updates =>
    exact f.run_update_merging h hmerges hmerge (hknown key updates rfl) fun _ _ => hop
  | _ => exact f.run_perform_of_not_update h (h.admits hop) (by simp [Operation.kind])

/-- What the table does not admit is refused and changes nothing. -/
theorem run_perform_refused {op : Operation} (hmerges : f.mergesUpdates = false)
    (hop : ¬ t.Admits op) :
    ∃ part length, e.run (f.perform op) =
      (.error (.raised (.invalidArgument (.longPart part length))), e) := by
  cases op with
  | insert key row =>
    obtain ⟨part, length, hencode⟩ := Row.exists_longPart_of_not_encodable hop
    exact ⟨part, length, run_insert_refused hencode key⟩
  | update key updates =>
    simp only [Table.Admits, Classical.not_forall] at hop
    obtain ⟨row, hrow, hunknown, hassigned⟩ := hop
    obtain ⟨part, length, hencode⟩ := Row.exists_longPart_of_not_encodable hassigned
    refine ⟨part, length, ?_⟩
    simp only [perform, update, hmerges, Bool.false_eq_true, if_false]
    rw [run_overlayStored h hrow, hunknown]
    exact run_insert_refused hencode key
  | _ => exact absurd trivial hop

/-- An engine that merges updates and one that overlays them stay in step, as long as updates name
stored fields and none of them is refused for its length. -/
theorem run_perform_lockstep {g : SchemalessFormat} {e' : KeyValueEngine} {op : Operation}
    (h' : e'.Holds t) (hf : f.mergesUpdates = true) (hg : g.mergesUpdates = false)
    (hcount : f.fieldCount = g.fieldCount) (hmerge : e.mergeOperator = some Row.mergeEncoded)
    (hknown : ∀ key updates, op = .update key updates →
      ∀ row : Row, t[key]? = some row → row.firstUnknown? updates = none)
    (hlong : op.kind = .update → ∀ part length, (e.run (f.perform op)).1 ≠
      .error (.raised (.invalidArgument (.longPart part length)))) :
    (e.run (f.perform op)).1 = (e'.run (g.perform op)).1 ∧
      ∃ t', (e.run (f.perform op)).2.Holds t' ∧ (e'.run (g.perform op)).2.Holds t' := by
  by_cases hkind : op.kind = .update
  · cases op with
    | update key updates =>
      -- The operand of a merge is encoded before it is merged, so its length is checked there.
      have hupdates : ∀ row : Row, t[key]? = some row → updates.Encodable := by
        intro row hrow
        by_cases hencodable : updates.Encodable
        · exact hencodable
        · obtain ⟨part, length, hencode⟩ := Row.exists_longPart_of_not_encodable hencodable
          refine absurd ?_ (hlong rfl part length)
          simp only [perform, update, hf, if_true]
          rw [run_mergeUpdate_refused h hrow hencode]
      have hadmits : t.Admits (.update key updates) := by
        intro row hrow _
        exact (h.encodable key row hrow).assignAll (hupdates row hrow)
      obtain ⟨hleft, hleft'⟩ := f.run_update_merging h hf hmerge (hknown key updates rfl) hupdates
      obtain ⟨hright, hright'⟩ := g.run_update h' hg hadmits
      exact ⟨hleft.trans hright.symm, _, hleft', hright'⟩
    | _ => cases hkind
  · by_cases hop : t.Admits op
    · obtain ⟨hleft, hleft'⟩ := f.run_perform_of_not_update h hop hkind
      obtain ⟨hright, hright'⟩ := g.run_perform_of_not_update h' hop hkind
      rw [hcount] at hleft hleft'
      exact ⟨hleft.trans hright.symm, _, hleft', hright'⟩
    · cases op with
      | insert key row =>
        obtain ⟨part, length, hencode⟩ := Row.exists_longPart_of_not_encodable hop
        simp only [perform]
        rw [run_insert_refused hencode, run_insert_refused hencode]
        exact ⟨rfl, t, h, h'⟩
      | update key updates => exact absurd rfl hkind
      | _ => exact absurd trivial hop

end SchemalessFormat

end StoreBench
