import StoreBench.Benchmark
import StoreBench.Proofs.Plans
import StoreBench.Proofs.Refinement
import StoreBench.Proofs.Serving
/-!
# Setting up a benchmark

The workload that a benchmark builds has the options it was built from, room for the names of its
fields and a mix of the kinds that were given a weight. The properties handed to the engines carry
the shape of its rows, so adapters connected with them are bound to an empty engine by a format of
that very shape.
-/

namespace StoreBench

namespace Text

/-- Spelling a number and reading it back. -/
theorem parseUnsigned?_toString {bits n : Nat} (h : n < Nat.pow 2 bits) :
    parseUnsigned? bits (toString n) = some n := by
  have hdigits : ∀ c ∈ Nat.toDigits 10 n, c.isDigit := fun c hc =>
    Nat.isDigit_of_mem_toDigits (by decide) (by decide) hc
  have hliteral : unsignedLiteral? (toString n).toList = some n := by
    rw [show (toString n).toList = Nat.toDigits 10 n from String.toList_ofList ..]
    unfold unsignedLiteral?
    split
    · next hnil => exact absurd hnil Nat.toDigits_ne_nil
    · next hplus => exact absurd (hdigits '+' (hplus ▸ List.mem_cons_self)) (by decide)
    · next hplus => exact absurd (hdigits '+' (hplus ▸ List.mem_cons_self)) (by decide)
    · exact digitsValue?_toDigits n
  rw [parseUnsigned?, hliteral]
  simpa using h

end Text

/-! ## The properties of the engines -/

/-- Properties that give rows the shape of a layout. -/
structure Properties.Describe (p : Properties) (layout : ColumnLayout) : Prop where
  fieldCount_eq : p.fieldCount = .ok layout.fieldCount
  fieldStem_eq : p.fieldStem = layout.stem

/-- The properties a benchmark hands to the engines have the shape of the workload's rows. -/
theorem Benchmark.propertiesWith_describe {o : BenchmarkOptions} {p : Properties}
    (h : o.workload.fieldCount < UInt64.size) :
    (propertiesWith o p).Describe ⟨o.workload.fieldStem, o.workload.fieldCount⟩ where
  fieldCount_eq := by
    have hget : (propertiesWith o p).get? Properties.fieldCountKey =
        some (toString o.workload.fieldCount) := by
      rw [propertiesWith, Properties.get?_set, if_neg (by decide), Properties.get?_set, if_pos rfl]
    simp only [Properties.fieldCount, Properties.natural, Properties.parsed, hget]
    rw [Text.parseUnsigned?_toString h]
  fieldStem_eq := by
    rw [Properties.fieldStem, Properties.getOr, propertiesWith, Properties.get?_set, if_pos rfl]
    rfl

/-! ## The workload -/

/-- A kind in a mix has a positive weight. -/
theorem Mix.weight_pos_of_mem_parts {weights : List (Float × OperationKind)} {mix : Mix}
    (h : ofWeights? weights = .ok mix) {bound : Float} {kind : OperationKind}
    (hmem : (bound, kind) ∈ mix.parts) : ∃ weight, 0.0 < weight ∧ (weight, kind) ∈ weights := by
  unfold ofWeights? at h
  split at h
  · cases h
  · simp only at h
    split at h
    · cases h
    · split at h
      · cases h
      · cases h
        exact weight_pos_of_mem_partsFrom hmem

namespace Workload

theorem value_run_bind {α β : Type} (p : Attempt .silent α) (f : α → Attempt .silent β) :
    (p >>= f).run.value = match p.run.value with
      | .ok a => (f a).run.value
      | .error failure => .error failure := by
  refine (Program.value_bind p.run _).trans ?_
  cases p.run.value <;> rfl

/-- What a workload that was built is made of. -/
theorem of_build [Machine] {o : WorkloadOptions} {w : Workload}
    (h : (build (ι := .silent) o).run.value = .ok w) :
    w.options = o ∧ Mix.ofWeights? o.weights = .ok w.mix ∧ FitsMemory o.fieldCount nameSize := by
  unfold build at h
  split at h
  · split at h
    · cases h
    · split at h
      · split at h
        · cases h
        · next mix hmix =>
          split at h
          · cases h
          · rw [value_run_bind] at h
            split at h
            · rw [value_run_bind] at h
              split at h
              · next hreserve =>
                cases h
                exact ⟨rfl, hmix, reserve_eq_ok_iff.1 hreserve⟩
              · cases h
            · cases h
      · cases h
  · cases h

variable [Machine] {o : WorkloadOptions} {w : Workload}

theorem fieldCount_lt_of_build (h : (build (ι := .silent) o).run.value = .ok w) :
    o.fieldCount + 1 < UInt64.size := by
  have hfits := (of_build h).2.2
  have hmemory := Machine.memory_lt
  have hlimit : blockLimit = 9223372036854775808 := rfl
  have hsize : UInt64.size = 18446744073709551616 := rfl
  rw [FitsMemory, nameSize] at hfits
  omega

theorem describe_of_build {b : BenchmarkOptions}
    (h : (build (ι := .silent) b.workload).run.value = .ok w) (p : Properties) :
    (Benchmark.propertiesWith b p).Describe w.layout := by
  rw [layout, (of_build h).1]
  exact Benchmark.propertiesWith_describe (Nat.lt_of_succ_lt (fieldCount_lt_of_build h))

/-- A kind in the mix was given a positive weight. -/
theorem weight_pos_of_build (h : (build (ι := .silent) o).run.value = .ok w) {kind : OperationKind}
    (hkind : w.Chooses .transaction kind) :
    ∃ weight, 0.0 < weight ∧ (weight, kind) ∈ o.weights := by
  obtain ⟨bound, hmem⟩ := hkind
  exact Mix.weight_pos_of_mem_parts (of_build h).2.1 hmem

theorem not_delete_of_build (h : (build (ι := .silent) o).run.value = .ok w)
    (hdelete : ¬ 0.0 < o.deleteProportion) : ¬ w.Chooses .transaction .delete := by
  intro hkind
  obtain ⟨weight, hpos, hmem⟩ := weight_pos_of_build h hkind
  simp only [WorkloadOptions.weights, List.mem_cons, Prod.mk.injEq, List.not_mem_nil,
    reduceCtorEq, and_false, and_true, false_or, or_false] at hmem
  exact hdelete (hmem ▸ hpos)

end Workload

/-! ## Adapters on one engine -/

/-- A key-value format that was selected read whether it merges updates. -/
theorem Format.exists_mergesUpdates {p : Properties} {name engine : String} {format : Format}
    (h : Format.select? .keyValue name p engine = .ok format) :
    ∃ mergesUpdates, p.bool (engine ++ ".mergeupdate") false = .ok mergesUpdates := by
  simp only [select?, SchemalessFormat.select?] at h
  split at h
  · cases h
  · cases hcount : p.fieldCount with
    | error cause => rw [hcount] at h; cases h
    | ok fieldCount =>
      cases hmerges : p.bool (engine ++ ".mergeupdate") false with
      | error cause => rw [hcount, hmerges] at h; cases h
      | ok mergesUpdates => exact ⟨mergesUpdates, rfl⟩

namespace EngineKind

/-- The name of the engine of a kind that keeps its data in memory. -/
def memoryName : EngineKind → String
  | keyValue => "memory"
  | tuple => "tuple"

def opener : EngineKind → Opener
  | keyValue => .memory
  | tuple => .memoryTuples

variable (kind : EngineKind)

theorem kind_opener : kind.opener.kind = kind := by cases kind <;> rfl

theorem memoryName_ne_basic : kind.memoryName ≠ "basic" := by cases kind <;> decide

theorem shares_standard (p : Properties) :
    (Registry.standard p).Shares kind.memoryName kind.opener := by
  cases kind <;> exact ⟨_, rfl, rfl, .inl ⟨rfl, rfl⟩⟩

theorem exists_memoryName {name : String} (h : name = "memory" ∨ name = "tuple") :
    ∃ kind, name = memoryName kind := by
  rcases h with rfl | rfl
  · exact ⟨keyValue, rfl⟩
  · exact ⟨tuple, rfl⟩

end EngineKind

/-- The first engine of the registry is of a kind and holds a table of rows of a layout. -/
def Registry.HoldsTable (layout : ColumnLayout) (kind : EngineKind) (r : Registry) (t : Table) :
    Prop :=
  match kind with
  | .keyValue => r.HoldsRows t
  | .tuple => r.HoldsTuples layout t

namespace Registry.HoldsTable

variable {layout : ColumnLayout} {kind : EngineKind} {r r' : Registry} {t : Table}

theorem of_engine_eq (h : r.HoldsTable layout kind t) (heq : r'.engines[0]? = r.engines[0]?) :
    r'.HoldsTable layout kind t := by
  cases kind with
  | keyValue =>
    obtain ⟨e, hkeeps, hholds⟩ := h
    exact ⟨e, heq.trans hkeeps, hholds⟩
  | tuple =>
    obtain ⟨e, hkeeps, hholds⟩ := h
    exact ⟨e, heq.trans hkeeps, hholds⟩

theorem of_agreesButJournal (h : r.HoldsTable layout kind t) (hagrees : r.AgreesButJournal r') :
    r'.HoldsTable layout kind t := by
  obtain ⟨journal, rfl⟩ := hagrees
  exact h.of_engine_eq rfl

/-- An engine that was opened in memory is empty. -/
theorem of_opened {p : Properties} (hp : p.Describe layout) {engine : Engine}
    (hrun : kind.opener.run p = .ok engine) (hengines : r.engines = [engine]) :
    r.HoldsTable layout kind ∅ := by
  cases kind with
  | keyValue =>
    obtain rfl := Opener.memory_ok hrun
    exact Registry.holdsRows_of_engines_eq hengines
  | tuple =>
    obtain ⟨rfl, -⟩ := Opener.memoryTuples_ok hp.fieldCount_eq hrun
    exact Registry.holdsTuples_of_engines_eq hengines

end Registry.HoldsTable

/-- What has become of a table by an insert: the row is there if the insert succeeded, and otherwise
nothing has changed. -/
def Table.Inserts (t : Table) (key : Bytes) (row : Row) (outcome : Except Failure Status)
    (t' : Table) : Prop :=
  match outcome with
  | .ok _ => t' = t.insert key row
  | .error _ => t' = t

namespace Adapter

/-- The adapter is bound to the first engine, of a kind, by a format for rows of a layout. -/
def IsBoundTo (layout : ColumnLayout) (kind : EngineKind) (a : Adapter) : Prop :=
  ∃ ea, a = .engine ea ∧ match kind with
    | .keyValue =>
      ∃ mergesUpdates, ea.binding = some (.keyValue 0 ⟨layout.fieldCount, mergesUpdates⟩)
    | .tuple => ea.binding = some (.tuple 0 ⟨layout⟩)

variable {p : Properties} {layout : ColumnLayout} {kind : EngineKind} {r : Registry}

/-- An adapter of the first engine whose format was selected by properties of a layout. -/
theorem isBoundTo_of_select? (hp : p.Describe layout) {ea : EngineAdapter} {format : Format}
    {name engine : String} (hformat : Format.select? kind name p engine = .ok format)
    (hbinding : ea.binding = some (format.bind 0)) : (Adapter.engine ea).IsBoundTo layout kind := by
  refine ⟨ea, rfl, ?_⟩
  cases kind with
  | keyValue =>
    obtain ⟨mergesUpdates, hmerges⟩ := Format.exists_mergesUpdates hformat
    obtain rfl := Format.select?_keyValue hp.fieldCount_eq hmerges hformat
    exact ⟨mergesUpdates, hbinding⟩
  | tuple =>
    obtain rfl := Format.select?_tuple hp.fieldCount_eq hformat
    rw [hp.fieldStem_eq] at hbinding
    exact hbinding

/-- Adapters connected to an engine in memory share it, empty. -/
theorem connectAll_bound (hp : p.Describe layout) {count : Nat} {clients : List Adapter}
    (h : (connectAll kind.memoryName count).run (.standard p) = (.ok clients, r)) :
    ∀ a ∈ clients, r.HoldsTable layout kind ∅ ∧ a.IsBoundTo layout kind := by
  obtain ⟨hopened, hbound⟩ := connectAll_ok kind.memoryName_ne_basic (kind.shares_standard p) h
  intro a ha
  obtain ⟨ea, format, rfl, hbinding, hformat⟩ := hbound a ha
  rw [kind.kind_opener] at hformat
  refine ⟨?_, isBoundTo_of_select? hp hformat hbinding⟩
  rcases hopened with ⟨rfl, -⟩ | ⟨engine, hrun, hengines⟩
  · cases ha
  · exact .of_opened hp hrun hengines

/-- Inserting a row with the names of the layout. -/
theorem perform_insert [Machine] {a : Adapter} {kind : EngineKind} {t : Table}
    (ha : a.IsBoundTo layout kind) (hfits : layout.fieldCount + 1 < UInt64.size)
    (hr : r.HoldsTable layout kind t) {row : Row} (hnames : row.names = layout.schema)
    (key : Bytes) :
    ∃ t', t.Inserts key row ((a.perform (.insert key row)).run r).1 t' ∧
      ((a.perform (.insert key row)).run r).2.HoldsTable layout kind t' := by
  obtain ⟨ea, rfl, hbinding⟩ := ha
  cases kind with
  | tuple =>
    have hconforms : layout.Conforms (.insert key row) := hnames
    obtain ⟨hanswer, hheld⟩ := perform_tuple hbinding hfits hr hconforms
    exact ⟨_, hanswer ▸ rfl, hheld⟩
  | keyValue =>
    obtain ⟨mergesUpdates, hbinding⟩ := hbinding
    by_cases hrow : row.Encodable
    · have hencodable : (Operation.insert key row).Encodable := hrow
      cases mergesUpdates with
      | true =>
        obtain ⟨hanswer, hheld⟩ := perform_merging hbinding hr hencodable trivial
        exact ⟨_, hanswer ▸ rfl, hheld⟩
      | false =>
        have hadmits : t.Admits (.insert key row) := by
          obtain ⟨e, -, hholds, -⟩ := id hr
          exact hholds.admits hencodable
        obtain ⟨hanswer, hheld⟩ := perform_overlaying hbinding hr hadmits
        exact ⟨_, hanswer ▸ rfl, hheld⟩
    · obtain ⟨_, _, hrefused, hheld⟩ := perform_insert_refused hbinding hr hrow key
      exact ⟨t, hrefused ▸ rfl, hheld⟩

end Adapter

end StoreBench
