import StoreBench.Format.Columnar
import StoreBench.Proofs.Columns
import StoreBench.Proofs.History
import StoreBench.Proofs.Searches
/-!
# Stores of tuples

A tuple engine never stores a tuple that is not as wide as it is or whose first slot is not its key.
So whatever operations are asked of an engine that was opened for a layout, each of its tuples is
made of the key and a value for every field, and reads, scans and filters show them one by one.
-/

namespace StoreBench

namespace ColumnLayout

variable {layout : ColumnLayout} {key : Bytes} {held : Slots}

variable (layout) in
/-- Whether slots are a tuple of the layout: the key and a value for every field. -/
def Shapes (key : Bytes) (held : Slots) : Prop :=
  held.length = layout.fieldCount + 1 ∧ held.head? = some key

theorem names_row (h : held.length = layout.fieldCount + 1) :
    (layout.row held).names = layout.schema := by
  refine List.ext_getElem (by simp [Row.names, row, h]) fun i _ _ => ?_
  simp [Row.names, row, schema]

namespace Shapes

variable (h : layout.Shapes key held)

include h

/-- A tuple of a layout is made of the key and the values of its row. -/
theorem slots_row : slots key (layout.row held) = held := by
  obtain ⟨-, hhead⟩ := h
  cases held with
  | nil => cases hhead
  | cons first rest =>
    cases hhead
    refine congrArg (key :: ·) (List.ext_getElem (by simp [row]) fun i _ _ => ?_)
    simp [row]

/-- The values of the row are in the slots of its names. -/
theorem slotValue?_eq {f : Field} (hf : f ∈ layout.row held) :
    layout.slotValue? held f.name = .ok f.value := by
  have hvalue : layout.slotValue? (slots key (layout.row held)) f.name = .ok f.value :=
    slotValue?_of_mem (names_row h.1) hf
  rwa [h.slots_row] at hvalue

/-- Looking at the slots of a tuple is looking up the fields of its row. -/
theorem matchesAt_eq {predicate : Predicate} {positions : List Nat}
    (hpositions : predicate.names.mapM layout.slotOf? = .ok positions) :
    predicate.matchesAt positions held = predicate.matchesRow (layout.row held) := by
  have hmatches : predicate.matchesAt positions (slots key (layout.row held)) =
      predicate.matchesRow (layout.row held) := matchesAt_slots (names_row h.1) hpositions
  rwa [h.slots_row] at hmatches

theorem evaluate_check {ι : Interface} {σ : Type}
    (answer : (request : ι.Request) → σ → ι.Answer request × σ) (s : σ)
    (hfits : layout.fieldCount + 1 < UInt64.size) :
    Attempt.evaluate answer (layout.check held) s = (.ok (), s) := by
  have hcheck : Attempt.evaluate answer (layout.check (slots key (layout.row held))) s =
      (.ok (), s) := ColumnLayout.evaluate_check (names_row h.1) answer s hfits
  rwa [h.slots_row] at hcheck

theorem row_eq_iff {row : Row} :
    layout.row held = row ↔ row.names = layout.schema ∧ held = key :: row.map Field.value := by
  constructor
  · rintro rfl
    exact ⟨names_row h.1, h.slots_row.symm⟩
  · rintro ⟨hnames, rfl⟩
    exact row_slots hnames

end Shapes

end ColumnLayout

/-! ## Engines -/

/-- Whether an engine is open and all of its tuples are tuples of a layout. -/
structure TupleEngine.ShapedBy (e : TupleEngine) (layout : ColumnLayout) : Prop where
  isOpen : e.closed = false
  width_eq : e.width = layout.fieldCount + 1
  shapes : ∀ (key : Bytes) (held : Slots), e.tuples[key]? = some held → layout.Shapes key held

namespace TupleEngine

variable {e : TupleEngine} {layout : ColumnLayout} {key : Bytes} {held : Slots}

theorem accepts_eq_ok_iff :
    e.accepts key held = .ok () ↔ held.length = e.width ∧ held.head? = some key := by
  unfold accepts
  split
  · next hwidth => exact ⟨nofun, fun h => absurd h.1 hwidth⟩
  · next hwidth =>
    cases held with
    | nil => exact ⟨nofun, fun h => nomatch h.2⟩
    | cons first rest =>
      by_cases hfirst : first = key
      · simpa [hfirst] using hwidth
      · simp [hfirst]

namespace ShapedBy

theorem fresh (name : String) :
    (TupleEngine.fresh name (layout.fieldCount + 1)).ShapedBy layout where
  isOpen := rfl
  width_eq := rfl
  shapes := by simp [TupleEngine.fresh]

variable (h : e.ShapedBy layout)

include h

/-- A call stores no tuple of another shape. -/
theorem serve (call : TupleCall) : (e.serve call).2.ShapedBy layout := by
  cases call with
  | get key =>
    rw [← run_attempt, run_get h.isOpen]
    exact h
  | visit start =>
    rw [← run_attempt, run_visit h.isOpen]
    exact h
  | delete key =>
    rw [← run_attempt, run_delete h.isOpen]
    refine ⟨h.isOpen, h.width_eq, fun k held hheld => h.shapes k held ?_⟩
    rw [Std.ExtTreeMap.getElem?_erase] at hheld
    split at hheld
    · cases hheld
    · exact hheld
  | put key slots =>
    cases haccepts : e.accepts key slots with
    | error failure =>
      have hserve : e.serve (.put key slots) = (.error failure, e) := by
        simp [TupleEngine.serve, answer, h.isOpen, haccepts]
      rw [hserve]
      exact h
    | ok _ =>
      obtain ⟨hlength, hhead⟩ := accepts_eq_ok_iff.1 haccepts
      rw [← run_attempt, run_put h.isOpen haccepts]
      refine ⟨h.isOpen, h.width_eq, fun k held hheld => ?_⟩
      rw [Std.ExtTreeMap.getElem?_insert] at hheld
      split at hheld
      · next hkey =>
        cases hheld
        rw [← Bytes.order_eq_eq_iff.1 hkey]
        exact ⟨hlength.trans h.width_eq, hhead⟩
      · exact h.shapes k held hheld

/-- Nor does anything else that is made of calls. -/
theorem run {α : Type} (p : Attempt tupleCalls α) : (e.run p).2.ShapedBy layout :=
  Program.evaluate_preserves (ι := tupleCalls) TupleEngine.serve
    (I := fun s : TupleEngine => s.ShapedBy layout) (fun call _ hs => hs.serve call) p.run h

theorem shapes_of_mem {x : Bytes × Slots} (hx : x ∈ e.tuples.toList) : layout.Shapes x.1 x.2 :=
  h.shapes x.1 x.2 (Std.ExtTreeMap.mem_toList_iff_getElem?_eq_some.1 hx)

end ShapedBy

end TupleEngine

/-! ## Reads, scans and filters -/

namespace ColumnarFormat

variable {ι : Interface} {σ : Type} (f : ColumnarFormat)

/-- What is shown of a stored tuple. -/
def view (fields : Selection) (x : Bytes × Slots) : Except Failure Row :=
  match fields with
  | some wanted => wanted.mapM fun name => do return ⟨name, ← f.layout.slotValue? x.2 name⟩
  | none => .ok (f.layout.row x.2)

variable {f}

theorem evaluate_decodeStored (answer : (request : ι.Request) → σ → ι.Answer request × σ)
    (s : σ) (hfits : f.layout.fieldCount + 1 < UInt64.size) {x : Bytes × Slots}
    (hx : f.layout.Shapes x.1 x.2) (fields : Selection) :
    Attempt.evaluate answer (f.decodeStored x.2 fields) s = (f.view fields x, s) := by
  have hcheck := hx.evaluate_check answer s hfits
  cases fields with
  | some wanted =>
    rw [decodeStored, ColumnLayout.select,
      Attempt.evaluate_bind_ok answer (Attempt.evaluate_click answer _ s),
      Attempt.evaluate_bind_ok answer hcheck, Attempt.evaluate_ofExcept]
    rfl
  | none =>
    rw [decodeStored, ColumnLayout.decode,
      Attempt.evaluate_bind_ok answer (Attempt.evaluate_click answer _ s),
      Attempt.evaluate_bind_ok answer hcheck]
    rfl

/-- The fields of the schema are in their slots, however often they are asked for. -/
theorem exists_view_some {x : Bytes × Slots} (hx : f.layout.Shapes x.1 x.2) {wanted : List String}
    (hwanted : ∀ name ∈ wanted, name ∈ f.layout.schema) :
    ∃ part, f.view (some wanted) x = .ok part := by
  have hnames := ColumnLayout.names_row hx.1
  cases hview : f.view (some wanted) x with
  | ok part => exact ⟨part, rfl⟩
  | error failure =>
    obtain ⟨name, hname, hmissing⟩ := exists_mapM_eq_error_iff.1 ⟨failure, hview⟩
    rw [← hnames] at hwanted
    obtain ⟨field, hfield, rfl⟩ := List.mem_map.1 (hwanted name hname)
    refine absurd ?_ (hmissing field)
    rw [hx.slotValue?_eq hfield]
    rfl

theorem evaluate_match? (answer : (request : ι.Request) → σ → ι.Answer request × σ) (s : σ)
    (hfits : f.layout.fieldCount + 1 < UInt64.size) {x : Bytes × Slots}
    (hx : f.layout.Shapes x.1 x.2) {predicate : Predicate} {positions : List Nat}
    (hpositions : predicate.names.mapM f.layout.slotOf? = .ok positions) (fields : Selection) :
    Attempt.evaluate answer (f.match? predicate positions fields x.2) s =
      (showMatching f.view predicate fields x, s) := by
  have hrow : f.view none x = .ok (f.layout.row x.2) := rfl
  rw [match?, hx.matchesAt_eq hpositions, showMatching_of_ok hrow]
  by_cases hmatch : predicate.matchesRow (f.layout.row x.2)
  · simp only [hmatch, if_true]
    rw [Attempt.evaluate_bind, evaluate_decodeStored answer s hfits hx fields]
    cases f.view fields x <;> rfl
  · simp [hmatch]

variable {e : TupleEngine} (h : e.ShapedBy f.layout)
  (hfits : f.layout.fieldCount + 1 < UInt64.size)

include h hfits

theorem run_read_view (key : Bytes) (fields : Selection) :
    e.run (f.read key fields) =
      (e.tuples[key]?.elim (.ok none) fun held => (f.view fields (key, held)).map some, e) := by
  rw [read, TupleEngine.run, Attempt.evaluate_bind_ok _ (TupleEngine.run_get h.isOpen key)]
  cases hheld : e.tuples[key]? with
  | none => rfl
  | some held =>
    have hdecode := evaluate_decodeStored (ι := tupleCalls) (x := (key, held))
      TupleEngine.serve e hfits (h.shapes key held hheld) fields
    simp only [Option.elim_some]
    rw [Attempt.evaluate_bind, hdecode]
    cases f.view fields (key, held) <;> rfl

theorem run_scan_view (start : Bytes) (count : Nat) (fields : Selection) :
    e.run (f.scan start count fields) =
      (((e.tuples.entriesFrom start).take count).mapM (f.view fields), e) := by
  have hview : ∀ x ∈ (e.tuples.entriesFrom start).take count, ∀ s : TupleEngine,
      s.run (f.decodeStored x.2 fields) = (f.view fields x, s) := by
    intro x hx s
    have hmem : x ∈ e.tuples.toList := (List.dropWhile_sublist _).subset (List.mem_of_mem_take hx)
    exact evaluate_decodeStored _ s hfits (h.shapes_of_mem hmem) fields
  rw [scan, TupleEngine.run,
    Attempt.evaluate_bind_ok _ (TupleEngine.run_scan h.isOpen start count), ← List.map_take,
    List.mapM_map]
  exact Attempt.evaluate_mapM (ι := tupleCalls) TupleEngine.serve hview e

theorem run_filter_view {low high : Row} {predicate : Predicate}
    (hpredicate : Predicate.ofBounds? low high = .ok predicate)
    (hknown : ∀ name ∈ low.names, name ∈ f.layout.schema) (fields : Selection) :
    e.run (f.filter low high fields) =
      (e.tuples.toList.filterMapM (showMatching f.view predicate fields), e) := by
  rw [← Predicate.names_of_ofBounds? hpredicate] at hknown
  obtain ⟨positions, hpositions⟩ := ColumnLayout.exists_mapM_slotOf? hknown
  have hmatch : ∀ x ∈ e.tuples.toList, ∀ s : TupleEngine,
      s.run (f.match? predicate positions fields x.2) =
        (showMatching f.view predicate fields x, s) :=
    fun x hx s => evaluate_match? _ s hfits (h.shapes_of_mem hx) hpositions fields
  have hvisit : e.run (TupleCall.visit []).attempt = (.ok (e.tuples.toList.map Prod.snd), e) := by
    rw [TupleEngine.run_visit h.isOpen, SortedMap.entriesFrom_nil]
  rw [filter, hpredicate]
  show e.run (Attempt.ofExcept ((predicate.names.mapM f.layout.slotOf?).mapError .raised) >>=
    fun positions => (TupleCall.visit []).attempt >>= fun tuples =>
      tuples.filterMapM (f.match? predicate positions fields)) = _
  rw [hpositions]
  show e.run ((TupleCall.visit []).attempt >>= fun tuples =>
    tuples.filterMapM (f.match? predicate positions fields)) = _
  rw [TupleEngine.run, Attempt.evaluate_bind_ok _ hvisit, filterMapM_map]
  exact Attempt.evaluate_filterMapM (ι := tupleCalls) TupleEngine.serve hmatch e

end ColumnarFormat

/-! ## Adapters -/

/-- An adapter shows the tuples of its engine one by one. -/
theorem EngineAdapter.showsEntries_tuple [Machine] {a : EngineAdapter} {r : Registry} {id : Nat}
    {f : ColumnarFormat} {e : TupleEngine} (hbinding : a.binding = some (.tuple id f))
    (hfits : f.layout.fieldCount + 1 < UInt64.size) (hkeeps : r.Keeps id (.tuple e))
    (hshaped : e.ShapedBy f.layout) :
    ShowsEntries e.tuples f.view (· ∈ f.layout.schema) ((Adapter.engine a).answer r) where
  read_eq key fields :=
    (perform_tuple hbinding hkeeps (.read key fields)).1.trans
      (congrArg Prod.fst (ColumnarFormat.run_read_view hshaped hfits key fields))
  scan_eq start count :=
    (perform_tuple hbinding hkeeps (.scan start count none)).1.trans
      (congrArg Prod.fst (ColumnarFormat.run_scan_view hshaped hfits start count none))
  filter_eq low high _ fields hpredicate hknown :=
    (perform_tuple hbinding hkeeps (.filter low high fields)).1.trans
      (congrArg Prod.fst
        (ColumnarFormat.run_filter_view hshaped hfits hpredicate hknown fields))
  exists_part _ hx _ _ _ hwanted :=
    ColumnarFormat.exists_view_some (hshaped.shapes_of_mem hx) hwanted

namespace Adapter

variable {p : Properties} {r : Registry} {layout : ColumnLayout} {fieldCount : Nat}

/-- Whatever an adapter is asked for, the tuples of its engine keep their shape. -/
theorem exists_shaped_of_perform [Machine] {ea : EngineAdapter} {f : ColumnarFormat}
    (hbinding : ea.binding = some (.tuple 0 f))
    (h : ∃ e, r.Keeps 0 (.tuple e) ∧ e.ShapedBy layout) (op : Operation) :
    ∃ e, (((engine ea).exchange op).run r).2.Keeps 0 (.tuple e) ∧ e.ShapedBy layout := by
  obtain ⟨e, hkeeps, hshaped⟩ := h
  exact ⟨_, (EngineAdapter.perform_tuple hbinding hkeeps op).2, hshaped.run _⟩

/-- Adapters that share the tuple engine in memory leave tuples of the configured layout only,
whoever performs which operation. -/
theorem performAll_shaped [Machine] {count : Nat} {clients : List Adapter}
    (hcount : p.fieldCount = .ok fieldCount)
    (hclients : (connectAll "tuple" count).run (.standard p) = (.ok clients, r))
    {steps : List (Adapter × Operation)} (hsteps : ∀ step ∈ steps, step.1 ∈ clients) :
    ∀ a ∈ clients, fieldCount + 1 < UInt64.size ∧
      (∃ ea, a = engine ea ∧ ea.binding = some (.tuple 0 ⟨⟨p.fieldStem, fieldCount⟩⟩)) ∧
      ∃ e, ((performAll steps).run r).2.Keeps 0 (.tuple e) ∧
        e.ShapedBy ⟨p.fieldStem, fieldCount⟩ := by
  have hadapters := connectAll_tuple hcount hclients
  intro a ha
  obtain ⟨hengines, hfits, hbound⟩ := hadapters a ha
  refine ⟨hfits, hbound, ?_⟩
  refine run_mapM_preserves (J := fun r : Registry => ∃ e, r.Keeps 0 (.tuple e) ∧
    e.ShapedBy ⟨p.fieldStem, fieldCount⟩) ?_ ⟨_, ?_, .fresh "tuple"⟩
  · rintro ⟨actor, op⟩ hstep s hs
    obtain ⟨-, -, ea, rfl, hbinding⟩ := hadapters actor (hsteps _ hstep)
    exact exists_shaped_of_perform hbinding hs op
  · rw [Registry.Keeps, hengines]
    rfl

end Adapter

end StoreBench
