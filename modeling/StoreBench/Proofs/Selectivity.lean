import StoreBench.Proofs.Ranges
import StoreBench.Proofs.WellConfigured
/-!
# What filters select

The values of a pool ascend, so a value lies between two others exactly if its index lies between
theirs. The filter that a workload issues has the values at both ends of a drawn range for its
bounds. On an engine whose rows have a value of the pool in their first field it returns, in order
of keys, exactly the rows with the index of that value in the range.
-/

namespace StoreBench

open Skew

/-! ## Indices of a pool -/

namespace Skew.DistinctPool

variable {pool : DistinctPool} {i j : Nat}

variable (pool) in
/-- The index of a value. -/
def indexOf? (value : Bytes) : Option Nat := pool.values.toList.idxOf? value

theorem indexOf?_valueAt (hi : i < pool.size) : pool.indexOf? (pool.valueAt i hi) = some i := by
  refine List.idxOf?_eq_some_iff.2 ⟨hi, rfl, fun j hj heq => ?_⟩
  exact List.lt_irrefl _ (heq ▸ valueAt_lt (Nat.lt_trans hj hi) hi hj)

theorem exists_valueAt {value : Bytes} (h : value ∈ pool.values) :
    ∃ i, ∃ hi : i < pool.size, pool.valueAt i hi = value := Array.getElem_of_mem h

end Skew.DistinctPool

/-! ## Filters over a table -/

theorem Predicate.ofBounds?_singleton (name : String) (low high : Bytes) :
    ofBounds? [⟨name, low⟩] [⟨name, high⟩] = .ok [⟨name, low, high⟩] := by
  simp [ofBounds?, pair?, bind, Except.bind, pure, Except.pure]

namespace Workload

variable (w : Workload)

/-- The index in the pool of what the first field of a row holds. -/
def poolIndex? (row : Row) : Option Nat :=
  (row.value? (w.layout.fieldName 0)).bind w.values.indexOf?

/-- The row has the fields of the workload, with a value of the pool in the first one. -/
structure DrawsFirst (row : Row) : Prop where
  names_eq : row.names = w.layout.schema
  exists_value : ∃ value ∈ w.values.values, row.value? (w.layout.fieldName 0) = some value

/-- The rows of a table with an index in a range, in order of their keys. -/
def rowsWithin (t : Table) (range : Nat × Nat) : List Row :=
  (t.toList.map Prod.snd).filter fun row =>
    (w.poolIndex? row).any fun i => range.1 ≤ i && i ≤ range.2

variable {w} {t : Table} {range : Nat × Nat}

/-- The filter matches a row by the index of its value. -/
theorem matchesRow_eq (h : range.1 < w.values.size ∧ range.2 < w.values.size) {row : Row}
    (hrow : w.DrawsFirst row) :
    Predicate.matchesRow [⟨w.layout.fieldName 0, w.values.valueAt range.1 h.1,
        w.values.valueAt range.2 h.2⟩] row =
      (w.poolIndex? row).any fun i => range.1 ≤ i && i ≤ range.2 := by
  obtain ⟨value, hmem, hvalue⟩ := hrow.exists_value
  obtain ⟨i, hi, rfl⟩ := DistinctPool.exists_valueAt hmem
  have hindex : w.poolIndex? row = some i := by
    rw [poolIndex?, hvalue]
    exact DistinctPool.indexOf?_valueAt hi
  have hlow := DistinctPool.valueAt_le_iff h.1 hi
  have hhigh := DistinctPool.valueAt_le_iff hi h.2
  simp only [Predicate.matchesRow, List.all_cons, List.all_nil, Bool.and_true, hvalue, hindex,
    FieldRange.admits, Option.any_some]
  rw [decide_eq_decide.2 hlow, decide_eq_decide.2 hhigh]

theorem filter_rangeFilter (h : range.1 < w.values.size ∧ range.2 < w.values.size)
    (ht : ∀ x ∈ t.toList, w.DrawsFirst x.2) (fields : Selection) :
    (t.perform w.options.fieldCount (w.rangeFilter range h fields)).1 =
      .ok ((w.rowsWithin t range).map (Row.project fields)) := by
  have hrows : (t.toList.mapM fun x => Table.view w.options.fieldCount x.1 x.2 none) =
      .ok (t.toList.map Prod.snd) := by
    have hview : ∀ x ∈ t.toList, Table.view w.options.fieldCount x.1 x.2 none = pure x.2 :=
      fun x hx => if_pos (ColumnLayout.length_of_names_eq (ht x hx).names_eq)
    rw [mapM_congr_of_mem hview, List.mapM_pure]
    rfl
  have hdraws : ∀ row ∈ t.toList.map Prod.snd, w.DrawsFirst row :=
    List.forall_mem_map.2 ht
  simp only [Table.perform, Table.filter, Predicate.ofBounds?_singleton, hrows]
  rw [rowsWithin, ← List.filter_congr fun row hrow => matchesRow_eq h (hdraws row hrow)]
  rfl

variable (w) in
/-- The issued operation is a filter over a range that the pool draws, and it returned what is
wanted of exactly the rows with an index in that range. -/
def SelectsExactly (t : Table) (issued : Issued) : Prop :=
  ∃ s fields, w.IsSelection fields ∧ issued =
    ⟨w.rangeFilter (w.values.pickIndices s).1 (w.values.pickIndices_lt s) fields,
      .ok ((w.rowsWithin t (w.values.pickIndices s).1).map (Row.project fields))⟩

end Workload

/-! ## Filters on an engine -/

/-- The adapter is bound to an engine that holds the table, in rows of the layout. -/
def Adapter.Stores (layout : ColumnLayout) (r : Registry) (t : Table) : Adapter → Prop
  | .basic _ => False
  | .engine a => match a.binding with
    | none => False
    | some (.keyValue id f) =>
      f.fieldCount = layout.fieldCount ∧ ∃ e, r.Keeps id (.keyValue e) ∧ e.Holds t
    | some (.tuple id f) => f.layout = layout ∧ ∃ e, r.Keeps id (.tuple e) ∧ e.Holds layout t

/-- A filter is answered as the table answers it, whatever engine holds the table. -/
theorem Adapter.Stores.perform_filter [Machine] {layout : ColumnLayout} {r : Registry} {t : Table}
    {a : Adapter} (h : a.Stores layout r t) (hfits : layout.fieldCount + 1 < UInt64.size)
    {low high : Row} {fields : Selection} (hop : layout.Conforms (.filter low high fields)) :
    ((a.perform (.filter low high fields)).run r).1 =
      (t.perform layout.fieldCount (.filter low high fields)).1 := by
  cases a with
  | basic => exact h.elim
  | engine a =>
    rw [Stores] at h
    split at h
    · exact h.elim
    · next id f hbinding =>
      obtain ⟨hcount, e, hkeeps, hholds⟩ := h
      refine (EngineAdapter.perform_keyValue hbinding hkeeps _).1.trans ?_
      rw [← hcount]
      exact congrArg Prod.fst (f.run_filter hholds low high fields)
    · next id f hbinding =>
      obtain ⟨rfl, e, hkeeps, hholds⟩ := h
      refine (EngineAdapter.perform_tuple hbinding hkeeps _).1.trans ?_
      exact congrArg Prod.fst (ColumnarFormat.run_filter hholds hfits hop.2 hop.1)

namespace Session

open Workload (Stage Issued)

variable {w : Workload} {task : Task} {before after : Session} {t : Table}

/-- Issue the operation of a task and measure it. -/
def issue [Machine] (w : Workload) (task : Task) (worker : Worker) :
    SessionM (Except Failure Issued × Worker) :=
  (w.issue task worker).interpret record (answerWorkload performMeasured)

theorem issue_reaches [Machine] {worker : Worker}
    {ends : Stage → Except Failure Issued × Worker → Prop}
    (h : (w.issue task worker).Follows (w.calls task) ends (.planning none)) (before : Session) :
    ∃ stage, ends stage ((issue w task worker).run before).1 ∧
      before.Reaches w task stage ((issue w task worker).run before).2 :=
  interpret_reaches h before

theorem Performs.selectsExactly [Machine] {issued : Issued}
    (h : before.Performs w task issued after) (hfits : w.layout.fieldCount + 1 < UInt64.size)
    (hstores : before.adapter.Stores w.layout before.registry t)
    (hrows : ∀ (key : Bytes) (row : Row), t[key]? = some row → w.DrawsFirst row)
    (hrange : w.IsRangeFilter issued.op) : w.SelectsExactly t issued := by
  obtain ⟨op, outcome⟩ := issued
  obtain ⟨number, planned, hplans, -, hop, houtcome, -⟩ := h
  obtain ⟨registry, numbers, ⟨journal, rfl⟩, -, rfl⟩ := hplans
  have hconforms : w.layout.Conforms op := hop.conforms
  obtain ⟨s, _, fields, hfields, rfl⟩ := hrange
  have hdraws : ∀ x ∈ t.toList, w.DrawsFirst x.2 := fun x hx =>
    hrows x.1 x.2 (Std.ExtTreeMap.mem_toList_iff_getElem?_eq_some.1 hx)
  -- Only the journal differs between the two registries.
  have hstores' : before.adapter.Stores w.layout { before.registry with journal } t := hstores
  refine ⟨s, fields, hfields, congrArg (Issued.mk _) ?_⟩
  exact houtcome.trans ((hstores'.perform_filter hfits hconforms).trans
    (Workload.filter_rangeFilter (w.values.pickIndices_lt s) hdraws fields))

end Session

/-- In every pool a range of indices is one of values. A workload's filters return exactly the rows
with an index in the drawn range, and an analytic task always issues one. -/
theorem filter_selectivity [Machine] :
    (∀ (pool : DistinctPool) (s : Random.Stream) (i : Nat) (hi : i < pool.size),
      (pool.valueAt (pool.pickIndices s).1.1 (pool.pickIndices_lt s).1 ≤ pool.valueAt i hi ∧
        pool.valueAt i hi ≤ pool.valueAt (pool.pickIndices s).1.2 (pool.pickIndices_lt s).2) ↔
      (pool.pickIndices s).1.1 ≤ i ∧ i ≤ (pool.pickIndices s).1.2) ∧
    ∀ (o : WorkloadOptions) (w : Workload) (before : Session) (t : Table) (task : Task)
      (worker : Worker),
      (Workload.build (ι := .silent) o).run.value = .ok w →
      before.adapter.Stores w.layout before.registry t →
      (∀ (key : Bytes) (row : Row), t[key]? = some row → w.DrawsFirst row) →
      let result := ((Session.issue w task worker).run before).1.1
      (∀ issued, result = .ok issued → issued.op.kind = .filter → w.SelectsExactly t issued) ∧
        (task = .analytic → ∃ issued, result = .ok issued ∧ w.SelectsExactly t issued) := by
  refine ⟨fun pool s i hi => and_congr (DistinctPool.valueAt_le_iff _ hi)
    (DistinctPool.valueAt_le_iff hi _), ?_⟩
  intro o w before t task worker hbuild hstores hrows result
  have hfits : w.layout.fieldCount + 1 < UInt64.size := by
    have hcount := Workload.fieldCount_lt_of_build hbuild
    rwa [← (Workload.of_build hbuild).1] at hcount
  refine ⟨fun issued hissued hkind => ?_, ?_⟩
  · obtain ⟨stage, hends, hreaches⟩ := Session.issue_reaches
      (Workload.follows_issue Workload.follows_plan worker) before
    rw [show ((Session.issue w task worker).run before).1.1 = _ from hissued] at hends
    obtain ⟨rfl, hrange⟩ := hends
    exact hreaches.selectsExactly hfits hstores hrows (hrange hkind)
  · rintro rfl
    obtain ⟨stage, hends, hreaches⟩ := Session.issue_reaches
      (Workload.follows_issue Workload.follows_plan_analytic worker) before
    cases hresult : ((Session.issue w .analytic worker).run before).1.1 with
    | error failure =>
      rw [hresult] at hends
      exact hends.elim
    | ok issued =>
      rw [hresult] at hends
      obtain ⟨rfl, hrange⟩ := hends
      exact ⟨issued, hresult, hreaches.selectsExactly hfits hstores hrows hrange⟩

section

attribute [local instance] Machine.largest

/-- An analytic task on a tuple engine that holds one row. -/
theorem filter_selectivity_small : ∃ (w : Workload) (before : Session) (t : Table),
    (Workload.build (ι := .silent) (Team.small 3).workload).run.value = .ok w ∧
      before.adapter.Stores w.layout before.registry t ∧
      (∃ (key : Bytes) (row : Row), t[key]? = some row) ∧
      (∀ (key : Bytes) (row : Row), t[key]? = some row → w.DrawsFirst row) ∧
      ∀ worker, ∃ issued, ((Session.issue w .analytic worker).run before).1.1 = .ok issued ∧
        w.SelectsExactly t issued := by
  obtain ⟨w, hbuild, -⟩ := Team.exists_built_small (by decide : 3 ∈ [3, 2 ^ 32, 2 ^ 63])
  have hlayout : w.layout = ⟨"field", 2⟩ := by
    rw [Workload.layout, (Workload.of_build hbuild).1]
    rfl
  let value := w.values.valueAt 0 w.values.nonempty
  let row : Row := [⟨"field0", value⟩, ⟨"field1", [1, 2, 3]⟩]
  have hdraws : w.DrawsFirst row := by
    refine ⟨?_, value, w.values.valueAt_mem _, ?_⟩ <;> (rw [hlayout]; rfl)
  obtain ⟨e, hholds⟩ : ∃ e : TupleEngine, e.Holds w.layout ((∅ : Table).insert [1] row) :=
    ⟨_, (TupleEngine.Holds.fresh "tuple").insert hdraws.names_eq [1]⟩
  let adapter : Adapter := .engine ⟨"tuple", "tuple", .tuple, some (.tuple 0 ⟨w.layout⟩)⟩
  let before : Session := ⟨⟨.empty, [], [.tuple e], []⟩, .start, adapter, ⟨1⟩, none, []⟩
  have hstores : before.adapter.Stores w.layout before.registry ((∅ : Table).insert [1] row) :=
    ⟨rfl, e, rfl, hholds⟩
  have hrows : ∀ (key : Bytes) (found : Row),
      ((∅ : Table).insert [1] row)[key]? = some found → w.DrawsFirst found := by
    intro key found hfound
    rw [Std.ExtTreeMap.getElem?_insert] at hfound
    split at hfound
    · cases hfound
      exact hdraws
    · cases hfound
  refine ⟨w, before, _, hbuild, hstores, ⟨[1], row, by simp⟩, hrows, fun worker => ?_⟩
  exact (filter_selectivity.2 _ w before _ .analytic worker hbuild hstores hrows).2 rfl

end

end StoreBench
