import StoreBench.Format.Schemaless
import StoreBench.Proofs.History
import StoreBench.Proofs.Searches
/-!
# The schemaless format over any bytes

The values of an engine need not be encoded rows. What is shown of a value depends on its bytes
alone, so reads, scans and filters show the entries of an open engine one by one, whatever they are,
and leave the engine as it is.
-/

namespace StoreBench

namespace SchemalessFormat

variable (f : SchemalessFormat)

/-- What is shown of an entry. A row asked for as a whole has to have all its fields. -/
def view (fields : Selection) (x : Bytes × Bytes) : Except Failure Row :=
  match fields with
  | some wanted => (Row.select wanted x.2).value.mapError .raised
  | none =>
    match (Row.decode x.2).value with
    | .error cause => .error (.raised cause)
    | .ok row =>
      if row.length = f.fieldCount then .ok row
      else .error (.raised (.corruptRow (.fieldCount x.1 row.length f.fieldCount)))

variable {ι : Interface} {σ : Type}

variable {f} in
theorem view_none_eq_ok_iff {x : Bytes × Bytes} {row : Row} :
    f.view none x = .ok row ↔ (Row.decode x.2).value = .ok row ∧ row.length = f.fieldCount := by
  simp only [view]
  cases (Row.decode x.2).value with
  | error cause => simp
  | ok shown =>
    by_cases hlength : shown.length = f.fieldCount
    · simp only [hlength, if_true, Except.ok.injEq]
      exact ⟨fun h => ⟨h, h ▸ hlength⟩, And.left⟩
    · simp only [hlength, if_false, Except.ok.injEq]
      exact ⟨nofun, fun h => absurd (h.1 ▸ h.2) hlength⟩

variable {f} in
/-- What decodes as a whole decodes in part. -/
theorem exists_view_some {x : Bytes × Bytes} {row : Row} (h : f.view none x = .ok row)
    (wanted : List String) : ∃ part, f.view (some wanted) x = .ok part := by
  have hdecode := (view_none_eq_ok_iff.1 h).1
  rw [Row.value_decode, mapError_eq_ok_iff, Row.decode?_eq_ok_iff] at hdecode
  obtain ⟨hrow, hbytes⟩ := hdecode
  refine ⟨Row.pick wanted row, ?_⟩
  rw [view, ← hbytes, Row.value_select, Row.select?_bytes hrow]
  rfl

theorem evaluate_decodeStored
    (answer : (request : ι.Request) → σ → ι.Answer request × σ) (s : σ) (x : Bytes × Bytes)
    (fields : Selection) :
    Attempt.evaluate answer (f.decodeStored x.1 x.2 fields) s = (f.view fields x, s) := by
  cases fields with
  | some wanted =>
    rw [decodeStored, Attempt.evaluate_ofProgram, Row.evaluate_select, view, Row.value_select]
  | none =>
    rw [decodeStored, Attempt.evaluate_bind, Attempt.evaluate_ofProgram, Row.evaluate_decode, view,
      Row.value_decode]
    cases Row.decode? x.2 with
    | error cause => rfl
    | ok row =>
      simp only [mapError_ok]
      by_cases hlength : row.length = f.fieldCount
      · simp [hlength]
      · simp only [hlength, if_false, ne_eq, not_false_eq_true, if_true]
        rw [Attempt.evaluate_bind_error answer (Attempt.evaluate_raise answer _ s)]

theorem evaluate_match?
    (answer : (request : ι.Request) → σ → ι.Answer request × σ) (s : σ) (predicate : Predicate)
    (fields : Selection) (x : Bytes × Bytes) :
    Attempt.evaluate answer (f.match? predicate fields x.1 x.2) s =
      (showMatching f.view predicate fields x, s) := by
  rw [match?, Attempt.evaluate_bind, f.evaluate_decodeStored]
  cases hview : f.view none x with
  | error failure => rw [showMatching_of_error hview]
  | ok row =>
    rw [showMatching_of_ok hview]
    by_cases hmatch : predicate.matchesRow row
    · simp only [hmatch, if_true]
      cases fields with
      | none => rw [hview]; rfl
      | some wanted =>
        have hselect := f.evaluate_decodeStored answer s x (some wanted)
        rw [decodeStored] at hselect
        rw [Attempt.evaluate_bind, hselect]
        cases f.view (some wanted) x <;> rfl
    · simp [hmatch]

variable {e : KeyValueEngine} (h : e.closed = false)

include h

theorem run_read_view (key : Bytes) (fields : Selection) :
    e.run (f.read key fields) =
      (e.entries[key]?.elim (.ok none) fun value => (f.view fields (key, value)).map some, e) := by
  rw [read, KeyValueEngine.run, Attempt.evaluate_bind_ok _ (KeyValueEngine.run_get h key)]
  cases hvalue : e.entries[key]? with
  | none => rfl
  | some value =>
    have hdecode := f.evaluate_decodeStored (ι := keyValueCalls) KeyValueEngine.serve e
      (key, value) fields
    simp only [Option.elim_some]
    rw [Attempt.evaluate_bind, hdecode]
    cases f.view fields (key, value) <;> rfl

theorem run_scan_view (start : Bytes) (count : Nat) (fields : Selection) :
    e.run (f.scan start count fields) =
      (((e.entries.entriesFrom start).take count).mapM (f.view fields), e) := by
  rw [scan, KeyValueEngine.run, Attempt.evaluate_bind_ok _ (KeyValueEngine.run_scan h start count)]
  exact Attempt.evaluate_mapM (ι := keyValueCalls) KeyValueEngine.serve
    (fun x _ s => f.evaluate_decodeStored (ι := keyValueCalls) _ s x fields) e

theorem run_filter_view {low high : Row} {predicate : Predicate}
    (hpredicate : Predicate.ofBounds? low high = .ok predicate) (fields : Selection) :
    e.run (f.filter low high fields) =
      (e.entries.toList.filterMapM (showMatching f.view predicate fields), e) := by
  have hvisit : e.run (KeyValueCall.visit []).attempt = (.ok e.entries.toList, e) := by
    rw [KeyValueEngine.run_visit h, SortedMap.entriesFrom_nil]
  rw [filter, hpredicate]
  show e.run ((KeyValueCall.visit []).attempt >>= fun entries =>
    entries.filterMapM fun x => f.match? predicate fields x.1 x.2) = _
  rw [KeyValueEngine.run, Attempt.evaluate_bind_ok _ hvisit]
  exact Attempt.evaluate_filterMapM (ι := keyValueCalls) KeyValueEngine.serve
    (fun x _ s => f.evaluate_match? (ι := keyValueCalls) _ s predicate fields x) e

end SchemalessFormat

/-- An adapter shows the entries of its open key-value engine one by one, whatever their bytes. -/
theorem EngineAdapter.showsEntries_keyValue [Machine] {a : EngineAdapter} {r : Registry} {id : Nat}
    {f : SchemalessFormat} {e : KeyValueEngine} (hbinding : a.binding = some (.keyValue id f))
    (hkeeps : r.Keeps id (.keyValue e)) (hopen : e.closed = false) :
    ShowsEntries e.entries f.view (fun _ => True) ((Adapter.engine a).answer r) where
  read_eq key fields :=
    (perform_keyValue hbinding hkeeps (.read key fields)).1.trans
      (congrArg Prod.fst (f.run_read_view hopen key fields))
  scan_eq start count :=
    (perform_keyValue hbinding hkeeps (.scan start count none)).1.trans
      (congrArg Prod.fst (f.run_scan_view hopen start count none))
  filter_eq low high _ fields hpredicate _ :=
    (perform_keyValue hbinding hkeeps (.filter low high fields)).1.trans
      (congrArg Prod.fst (f.run_filter_view hopen hpredicate fields))
  exists_part _ _ _ wanted hrow _ := SchemalessFormat.exists_view_some hrow wanted

end StoreBench
