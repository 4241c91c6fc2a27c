import StoreBench.Proofs.Serving
import StoreBench.Proofs.Setup
/-!
# Tables of a workload

A table that holds rows of a workload only answers every operation the workload issues, and holds
rows of the workload only after it. Reads and updates are successes when their key is there; nothing
but a delete takes a key away.
-/

namespace StoreBench

open Skew

/-! ## Keys of a table -/

/-- Whether the key that a read or an update looks for is there. -/
def Table.Finds (t : Table) : Operation → Prop
  | .read key _ => t[key]?.isSome
  | .update key _ => t[key]?.isSome
  | _ => True

/-- The keys of the first `n` records are there. -/
def Table.HasRecords (t : Table) (n : Nat) : Prop := ∀ k < n, t[recordKey k]?.isSome

/-- Operations other than a delete keep every key, and an insert adds its own. -/
theorem Table.isSome_perform {t : Table} {fieldCount : Nat} {op : Operation} {key : Bytes}
    (hkind : op.kind ≠ .delete)
    (hkey : t[key]?.isSome ∨ ∃ row, op = .insert key row) :
    (t.perform fieldCount op).2[key]?.isSome := by
  have hinsert : ∀ (inserted : Bytes) (row : Row), t[key]?.isSome →
      (t.insert inserted row)[key]?.isSome := by
    intro inserted row hkey
    rw [Std.ExtTreeMap.getElem?_insert]
    split
    · rfl
    · exact hkey
  rcases hkey with hkey | ⟨row, rfl⟩
  · cases op with
    | delete deleted => exact absurd rfl hkind
    | insert inserted row => exact hinsert inserted row hkey
    | update updated updates =>
      simp only [perform, update]
      split
      · exact hkey
      · split
        · exact hkey
        · exact hinsert updated _ hkey
    | _ => exact hkey
  · simp only [perform, Std.ExtTreeMap.getElem?_insert_self, Option.isSome_some]

theorem Table.HasRecords.perform {t : Table} {n : Nat} (h : t.HasRecords n) {op : Operation}
    (hkind : op.kind ≠ .delete) (fieldCount : Nat) : (t.perform fieldCount op).2.HasRecords n :=
  fun k hk => isSome_perform hkind (.inl (h k hk))

/-- Inserting the next record. -/
theorem Table.HasRecords.insert {t : Table} {n : Nat} (h : t.HasRecords n) (row : Row)
    (fieldCount : Nat) :
    (t.perform fieldCount (.insert (recordKey n) row)).2.HasRecords (n + 1) := by
  intro k hk
  refine isSome_perform nofun ?_
  rcases Nat.lt_succ_iff_lt_or_eq.1 hk with hlt | rfl
  · exact .inl (h k hlt)
  · exact .inr ⟨row, rfl⟩

namespace Workload

variable {w : Workload} {row updates : Row} {fields : Selection} {op : Operation}
  {number : Option UInt64} {t : Table}

/-! ## Rows, updates and selections -/

theorem IsRow.hasField_of_mem (h : w.IsRow row) {f : Field} (hf : f ∈ row) :
    ∃ i < w.options.fieldCount, w.HasField i f := by
  obtain ⟨i, hi, hget⟩ := List.mem_iff_getElem.1 hf
  exact ⟨i, h.1 ▸ hi, h.2 i f (List.getElem?_eq_some_iff.2 ⟨hi, hget⟩)⟩

theorem IsRow.names_eq (h : w.IsRow row) : row.names = w.layout.schema := by
  refine List.ext_getElem? fun i => ?_
  rw [Row.names, List.getElem?_map]
  by_cases hi : i < w.options.fieldCount
  · have hlt : i < row.length := h.1 ▸ hi
    rw [w.layout.getElem?_schema hi, List.getElem?_eq_getElem hlt, Option.map_some,
      (h.2 i _ (List.getElem?_eq_getElem hlt)).1]
  · have hschema : w.layout.schema.length ≤ i := by
      rw [ColumnLayout.length_schema]
      exact Nat.not_lt.1 hi
    rw [List.getElem?_eq_none hschema, List.getElem?_eq_none (h.1 ▸ Nat.not_lt.1 hi),
      Option.map_none]

theorem IsUpdate.hasField_of_mem (h : w.IsUpdate updates) {u : Field} (hu : u ∈ updates) :
    ∃ i < w.options.fieldCount, w.HasField i u := by
  rcases h with hrow | ⟨i, f, hi, hf, rfl⟩
  · exact hrow.hasField_of_mem hu
  · rw [List.mem_singleton] at hu
    exact ⟨i, hi, hu ▸ hf⟩

/-- Assigning a field of the workload keeps a row one of the workload. -/
theorem IsRow.assign (h : w.IsRow row) {i : Nat} {u : Field} (hi : i < w.options.fieldCount)
    (hu : w.HasField i u) : w.IsRow (row.assign u) := by
  have hindex : row.findIdx (·.name == u.name) = i := by
    rw [hu.1]
    exact ColumnLayout.findIdx_fieldName h.names_eq hi
  rw [Row.assign, hindex]
  refine ⟨(List.length_modify ..).trans h.1, fun j f hf => ?_⟩
  rw [List.getElem?_modify] at hf
  obtain ⟨g, hg, rfl⟩ := Option.map_eq_some_iff.1 hf
  obtain ⟨hname, hvalue⟩ := h.2 j g hg
  by_cases hj : i = j
  · subst hj
    simpa using ⟨hname, hu.2⟩
  · simpa [hj] using ⟨hname, hvalue⟩

theorem IsRow.assignAll (h : w.IsRow row)
    (hupdates : ∀ u ∈ updates, ∃ i < w.options.fieldCount, w.HasField i u) :
    w.IsRow (row.assignAll updates) := by
  induction updates generalizing row with
  | nil => exact h
  | cons u updates ih =>
    obtain ⟨⟨i, hi, hu⟩, hrest⟩ := List.forall_mem_cons.1 hupdates
    exact ih (h.assign hi hu) hrest

theorem IsRow.firstUnknown? (h : w.IsRow row) (hupdates : w.IsUpdate updates) :
    row.firstUnknown? updates = none := by
  refine Row.firstUnknown?_eq_none_iff.2 fun u hu => ?_
  obtain ⟨i, hi, hfield⟩ := hupdates.hasField_of_mem hu
  rw [h.names_eq, ColumnLayout.mem_schema]
  exact ⟨i, hi, hfield.1.symm⟩

theorem IsSelection.selects (h : w.IsSelection fields) : w.layout.Selects fields := by
  rcases h with rfl | ⟨i, hi, rfl⟩
  · trivial
  · exact List.singleton_sublist.2 (ColumnLayout.mem_schema.2 ⟨i, hi, rfl⟩)

/-! ## What engines ask of operations -/

/-- What is issued keeps to the schema. -/
theorem Issues.conforms [Machine] (h : w.Issues number op) : w.layout.Conforms op := by
  cases op with
  | read key fields => exact h.2.selects
  | update key updates => trivial
  | insert key row => exact h.2.1.names_eq
  | scan key count fields => exact h.2.2.2.selects
  | delete key => trivial
  | filter low high fields =>
    obtain ⟨hfields, lowest, highest, -, -, rfl, rfl⟩ := h
    refine ⟨fun name hname => ?_, hfields.selects⟩
    have hname : name = w.layout.fieldName 0 := by simpa [Row.names] using hname
    exact ColumnLayout.mem_schema.2 ⟨0, w.fieldCount_pos, hname.symm⟩

variable (w) in
/-- The names and values of the workload are short enough to be encoded. -/
structure Encodes : Prop where
  names : ∀ i < w.options.fieldCount, (Bytes.ofText (w.options.fieldName i)).length < UInt32.size
  values : ∀ value ∈ w.values.values, value.length < UInt32.size
  filler : 1 < w.options.fieldCount → w.options.fieldLength < UInt32.size

instance : Decidable w.Encodes :=
  decidable_of_iff
    ((∀ i < w.options.fieldCount, (Bytes.ofText (w.options.fieldName i)).length < UInt32.size) ∧
      (∀ value ∈ w.values.values, value.length < UInt32.size) ∧
      (1 < w.options.fieldCount → w.options.fieldLength < UInt32.size))
    ⟨fun h => ⟨h.1, h.2.1, h.2.2⟩, fun h => ⟨h.names, h.values, h.filler⟩⟩

theorem Encodes.field (h : w.Encodes) {i : Nat} {f : Field} (hi : i < w.options.fieldCount)
    (hf : w.HasField i f) : f.Encodable := by
  obtain ⟨hname, hvalue⟩ := hf
  refine ⟨by rw [hname]; exact h.names i hi, ?_⟩
  rw [HasValue] at hvalue
  split at hvalue
  · exact h.values _ hvalue
  · rw [hvalue]
    exact h.filler (by omega)

theorem Encodes.operation [Machine] (h : w.Encodes) (hop : w.Issues number op) : op.Encodable := by
  cases op with
  | insert key row =>
    intro f hf
    obtain ⟨i, hi, hfield⟩ := hop.2.1.hasField_of_mem hf
    exact h.field hi hfield
  | update key updates =>
    intro u hu
    obtain ⟨i, hi, hfield⟩ := hop.2.hasField_of_mem hu
    exact h.field hi hfield
  | _ => trivial

/-! ## Operations on a table -/

variable (w) in
/-- A table with rows of the workload only. -/
def Fills (t : Table) : Prop := ∀ (key : Bytes) (row : Row), t[key]? = some row → w.IsRow row

namespace Fills

theorem empty : w.Fills ∅ := by
  intro key row hrow
  simp at hrow

variable (h : w.Fills t)

include h

theorem insert (hrow : w.IsRow row) (key : Bytes) : w.Fills (t.insert key row) := by
  intro k r hr
  rw [Std.ExtTreeMap.getElem?_insert] at hr
  split at hr
  · cases hr
    exact hrow
  · exact h k r hr

theorem erase (key : Bytes) : w.Fills (t.erase key) := by
  intro k r hr
  rw [Std.ExtTreeMap.getElem?_erase] at hr
  split at hr
  · cases hr
  · exact h k r hr

/-- What is issued leaves a table of the workload. -/
theorem perform [Machine] (hop : w.Issues number op) : w.Fills (t.perform w.options.fieldCount op).2
    := by
  cases op with
  | insert key row => exact h.insert hop.2.1 key
  | delete key => exact h.erase key
  | update key updates =>
    simp only [Table.perform, Table.update]
    split
    · exact h
    · next row hrow =>
      split
      · exact h
      · exact h.insert ((h key row hrow).assignAll fun u hu => hop.2.hasField_of_mem hu) key
  | _ => exact h

omit h in
theorem exists_view (hrow : w.IsRow row) (key : Bytes) (fields : Selection) :
    ∃ shown, Table.view w.options.fieldCount key row fields = .ok shown := by
  cases fields with
  | none => exact ⟨row, if_pos hrow.1⟩
  | some wanted => exact ⟨Row.pick wanted row, rfl⟩

theorem exists_mapM_view {entries : List (Bytes × Row)} (hentries : ∀ x ∈ entries, x ∈ t.toList)
    (fields : Selection) :
    ∃ rows, (entries.mapM fun x => Table.view w.options.fieldCount x.1 x.2 fields) = .ok rows := by
  cases hrows : entries.mapM fun x => Table.view w.options.fieldCount x.1 x.2 fields with
  | ok rows => exact ⟨rows, rfl⟩
  | error failure =>
    obtain ⟨x, hx, hview⟩ := exists_error_of_mapM hrows
    have hrow := Std.ExtTreeMap.mem_toList_iff_getElem?_eq_some.1 (hentries x hx)
    obtain ⟨shown, hshown⟩ := exists_view (h x.1 x.2 hrow) x.1 fields
    cases hshown.symm.trans hview

/-- What is issued is answered. It is a success if the key of a read or an update is there. -/
theorem answer [Machine] (hop : w.Issues number op) :
    ∃ result, (t.perform w.options.fieldCount op).1 = .ok result ∧
      (op.succeeded result = true ↔ t.Finds op) := by
  cases op with
  | insert key row => exact ⟨_, rfl, by simp [Operation.succeeded, Table.Finds]⟩
  | delete key => exact ⟨_, rfl, by simp [Operation.succeeded, Table.Finds]⟩
  | read key fields =>
    simp only [Table.perform, Table.read, Table.Finds]
    cases hrow : t[key]? with
    | none => exact ⟨none, rfl, by simp [Operation.succeeded]⟩
    | some row =>
      obtain ⟨shown, hshown⟩ := exists_view (h key row hrow) key fields
      simp only [hshown]
      exact ⟨some shown, rfl, by simp [Operation.succeeded]⟩
  | update key updates =>
    simp only [Table.perform, Table.update, Table.Finds]
    cases hrow : t[key]? with
    | none => exact ⟨.notFound, rfl, by simp [Operation.succeeded]⟩
    | some row =>
      simp only [(h key row hrow).firstUnknown? hop.2]
      exact ⟨.ok, rfl, by simp [Operation.succeeded]⟩
  | scan start count fields =>
    obtain ⟨rows, hrows⟩ := h.exists_mapM_view
      (fun x hx => (List.mem_filter.1 (List.mem_of_mem_take hx)).1) fields
    exact ⟨rows, hrows, by simp [Operation.succeeded, Table.Finds]⟩
  | filter low high fields =>
    obtain ⟨-, lowest, highest, -, -, rfl, rfl⟩ := hop
    obtain ⟨rows, hrows⟩ := h.exists_mapM_view (fun x hx => hx) none
    simp only [Table.perform, Table.filter, Predicate.ofBounds?, Predicate.pair?, hrows]
    exact ⟨_, rfl, by simp [Operation.succeeded, Table.Finds]⟩

end Fills

/-! ## Records that are there -/

/-- What is issued finds its key if every record the workload draws from is there. -/
theorem Issues.finds [Machine] (hop : w.Issues number op) (h : t.HasRecords w.options.recordCount) :
    t.Finds op := by
  cases op with
  | read key fields =>
    obtain ⟨n, hn, rfl⟩ := hop.1
    exact h n hn
  | update key updates =>
    obtain ⟨n, hn, rfl⟩ := hop.1
    exact h n hn
  | _ => trivial

theorem Chooses.ne_delete {task : Task} {kind : OperationKind} (h : w.Chooses task kind)
    (hdelete : ¬ w.Chooses .transaction .delete) : kind ≠ .delete := by
  rintro rfl
  cases task with
  | transaction => exact hdelete h
  | insert => cases h
  | analytic => cases h

end Workload

end StoreBench
