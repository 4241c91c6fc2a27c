import StoreBench.Proofs.Equivalence
import StoreBench.Proofs.StoredBytes
import StoreBench.Proofs.Truncation
import StoreBench.Proofs.TupleStores
/-!
# Searches of the stores in memory

Reads, scans and filters of a key-value adapter agree whatever bytes its engine holds. Those of a
tuple adapter agree whatever operations have been performed, as long as they keep to names of the
schema, which may be asked for in any order and repeatedly.
-/

namespace StoreBench.Adapter

/-- Reads, scans and filters agree with each other, for every content of a key-value engine, and for
every content that tuple adapters leave in the engine they share. -/
theorem searches_agree [Machine] :
    (∀ (a : EngineAdapter) (r : Registry) (id : Nat) (f : SchemalessFormat) (e : KeyValueEngine),
      a.binding = some (.keyValue id f) → r.Keeps id (.keyValue e) → e.closed = false →
      SearchesAgree e.entries.toList
        (fun x row => (Row.decode x.2).value = .ok row ∧ row.length = f.fieldCount)
        (fun _ => True) ((engine a).answer r)) ∧
    ∀ (p : Properties) (count fieldCount : Nat) (clients : List Adapter) (r : Registry)
      (steps : List (Adapter × Operation)), p.fieldCount = .ok fieldCount →
      (connectAll "tuple" count).run (.standard p) = (.ok clients, r) →
      (∀ step ∈ steps, step.1 ∈ clients) →
      let layout : ColumnLayout := ⟨p.fieldStem, fieldCount⟩
      let after := ((performAll steps).run r).2
      ∀ a ∈ clients, ∃ tuples : SortedMap Slots, a.stored after = some (.tuple tuples) ∧
        SearchesAgree tuples.toList
          (fun x row => row.names = layout.schema ∧ x.2 = x.1 :: row.map Field.value)
          (· ∈ layout.schema) (a.answer after) := by
  constructor
  · intro a r id f e hbinding hkeeps hopen
    exact (EngineAdapter.showsEntries_keyValue hbinding hkeeps hopen).searchesAgree
      fun _ _ _ => SchemalessFormat.view_none_eq_ok_iff
  · intro p count fieldCount clients r steps hcount hclients hsteps layout after a ha
    obtain ⟨hfits, ⟨ea, rfl, hbinding⟩, e, hkeeps, hshaped⟩ :=
      performAll_shaped hcount hclients hsteps a ha
    have hengine : after.engines[0]? = some (.tuple e) := hkeeps
    refine ⟨e.tuples, ?_, ?_⟩
    · simp [stored, hbinding, Binding.engineId, hengine, Engine.contents]
    · refine (EngineAdapter.showsEntries_tuple hbinding hfits hkeeps hshaped).searchesAgree ?_
      intro x hx row
      rw [← (hshaped.shapes_of_mem hx).row_eq_iff]
      exact iff_of_eq (Except.ok.injEq ..)

/-- A key-value engine with a row of two fields and a row without fields. -/
def twoFieldsAndNone : KeyValueEngine :=
  { KeyValueEngine.fresh "memory" (some Row.mergeEncoded) with
    entries := ((∅ : SortedMap Bytes).insert [0] twoFieldRow.bytes).insert [1] [] }

section

attribute [local instance] Machine.largest

/-- A scan shows a row of two fields and fails over the row without fields behind it, and so does a
filter. A filter of tuples is asked for one field twice. -/
theorem searches_agree_twoFields :
    let rows := engine (twoFieldRows false)
    let tuples := engine twoFieldTuples
    let r : Registry := { Registry.standard (twoFields "no") with
      engines := [.keyValue twoFieldsAndNone] }
    let s := ((performAll [(tuples, .insert [0] twoFieldRow)]).run
      ((connectAll "tuple" 1).run (.standard (twoFields "no"))).2).2
    let low : Row := [⟨"field1", [1]⟩]
    let high : Row := [⟨"field1", [3]⟩]
    let wanted := ["field1", "field0", "field1"]
    (rows.answer r (.scan [] 1 none) = .ok [twoFieldRow] ∧
      ∃ failure, rows.answer r (.scan [] 2 none) = .error failure ∧
        rows.answer r (.filter low high none) = .error failure) ∧
    tuples.answer s (.filter low high none) = .ok [twoFieldRow] ∧
      ∃ part keys, tuples.answer s (.filter low high (some wanted)) = .ok part ∧
        keys.Sublist [[0]] ∧ List.Forall₂ (fun key row =>
          tuples.answer s (.read key (some wanted)) = .ok (some row)) keys part := by
  intro rows tuples r s low high wanted
  constructor
  · have hagree := searches_agree.1 (twoFieldRows false) r 0 ⟨2, false⟩ twoFieldsAndNone rfl rfl rfl
    have hentries : twoFieldsAndNone.entries.toList = [([0], twoFieldRow.bytes), ([1], [])] := rfl
    rw [hentries] at hagree
    have hempty : ∀ row, ¬ ((Row.decode []).value = .ok row ∧ row.length = 2) := by
      rintro row ⟨hdecode, hlength⟩
      have hnil : Row.decode? [] = .ok [] := Row.decode?_eq_ok_iff.2 ⟨Row.encodable_nil, rfl⟩
      cases hnil.symm.trans (Row.value_decode_eq_ok_iff.1 hdecode)
      cases hlength
    have hdecode : (Row.decode twoFieldRow.bytes).value = .ok twoFieldRow :=
      Row.value_decode_eq_ok_iff.2 (Row.decode?_eq_ok_iff.2 ⟨by decide, rfl⟩)
    have hscan : rows.answer r (.scan [] 1 none) = .ok [twoFieldRow] :=
      (hagree.scan_shows [] 1 [twoFieldRow]).2 (.cons ⟨hdecode, rfl⟩ .nil)
    obtain ⟨failure, hfails⟩ := (hagree.scan_fails [] 2).2
      ⟨([1], []), List.mem_cons_of_mem _ List.mem_cons_self, hempty⟩
    have hfilter := hagree.filter_whole low high _ rfl (fun _ _ => trivial) 2 (Nat.le_refl 2)
    rw [hfails] at hfilter
    exact ⟨hscan, failure, hfails, hfilter⟩
  · have hclients : (connectAll "tuple" 1).run (.standard (twoFields "no")) =
        (.ok [tuples], ((connectAll "tuple" 1).run (.standard (twoFields "no"))).2) :=
      Prod.ext rfl rfl
    obtain ⟨held, hheld, hagree⟩ := searches_agree.2 (twoFields "no") 1 2 _ _
      [(tuples, .insert [0] twoFieldRow)] rfl hclients (by simp) tuples List.mem_cons_self
    have hstored : tuples.stored s =
        some (.tuple ((∅ : SortedMap Slots).insert [0] (ColumnLayout.slots [0] twoFieldRow))) := rfl
    cases hstored.symm.trans hheld
    have hscan : tuples.answer s (.scan [] 1 none) = .ok [twoFieldRow] :=
      (hagree.scan_shows [] 1 [twoFieldRow]).2 (.cons ⟨rfl, rfl⟩ .nil)
    have hknown : ∀ name ∈ low.names, name ∈ twoFieldLayout.schema := by decide
    have hfilter := hagree.filter_whole low high _ rfl hknown 1 (Nat.le_refl 1)
    have hwanted : ∀ name ∈ wanted, name ∈ twoFieldLayout.schema := by decide
    obtain ⟨hfails, hshows⟩ := hagree.filter_part low high _ wanted rfl hknown hwanted
    rw [hscan] at hfilter
    cases hpart : tuples.answer s (.filter low high (some wanted)) with
    | error failure => cases hfilter.symm.trans ((hfails failure).1 hpart)
    | ok part =>
      obtain ⟨keys, hkeys, -, hreads⟩ := hshows _ part hfilter hpart
      exact ⟨hfilter, part, keys, rfl, hkeys, hreads⟩

end

end StoreBench.Adapter
