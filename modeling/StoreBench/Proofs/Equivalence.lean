import StoreBench.Proofs.Refinement
/-!
# Stores of rows behave alike

Adapters of the engines in memory are driven through histories of any length and compared with the
table they stand for and with each other. Any number of key-value adapters that share an engine
answer as one table does. A tuple adapter answers as a key-value adapter does while the history
keeps to the schema. Merging updates is overlaying them while they name stored fields.
-/

namespace StoreBench.Adapter

variable {p q : Properties} {r s : Registry} {t : Table} {fieldCount : Nat}
  {layout : ColumnLayout} {ea : EngineAdapter} {history : List Operation}

/-! ## A store of two fields

One short history on engines whose rows have two fields is followed beside each main result. -/

def twoFields (merges : String) : Properties :=
  .ofList [("fieldcount", "2"), ("memory.mergeupdate", merges), ("memory.storage_dir", "/memory"),
    ("tuple.storage_dir", "/tuple")]

def twoFieldLayout : ColumnLayout := ⟨"field", 2⟩

def twoFieldRows (merges : Bool) : EngineAdapter :=
  ⟨"memory", "memory", .keyValue, some (.keyValue 0 ⟨2, merges⟩)⟩

def twoFieldTuples : EngineAdapter := ⟨"tuple", "tuple", .tuple, some (.tuple 0 ⟨twoFieldLayout⟩)⟩

def twoFieldRow : Row := [⟨"field0", [1]⟩, ⟨"field1", [2]⟩]

/-- A value of as many bytes as no prefix counts. -/
def longField : Field := ⟨"field0", List.replicate UInt32.size 0⟩

/-- A row is stored, one of its fields is overwritten, and it is read back. -/
def twoFieldHistory : List Operation :=
  [.insert [0] twoFieldRow, .update [0] [⟨"field1", [3]⟩], .read [0] none,
    .scan [] 1 (some ["field1"])]

theorem not_encodable_of_longField (rest : Row) : ¬ Row.Encodable (longField :: rest) := by
  intro h
  have hlength : (List.replicate UInt32.size 0 : Bytes).length < UInt32.size :=
    (h longField List.mem_cons_self).2
  rw [List.length_replicate] at hlength
  exact absurd hlength (Nat.lt_irrefl _)

theorem connect_twoFields_overlaying :
    (connect "memory").run (.standard (twoFields "no")) =
      (.ok (engine (twoFieldRows false)),
        ((connect "memory").run (.standard (twoFields "no"))).2) := Prod.ext rfl rfl

theorem connect_twoFields_merging :
    (connect "memory").run (.standard (twoFields "yes")) =
      (.ok (engine (twoFieldRows true)),
        ((connect "memory").run (.standard (twoFields "yes"))).2) := Prod.ext rfl rfl

theorem connect_twoFields_tuple :
    (connect "tuple").run (.standard (twoFields "no")) =
      (.ok (engine twoFieldTuples), ((connect "tuple").run (.standard (twoFields "no"))).2) :=
  Prod.ext rfl rfl

theorem holdsRows_overlaying :
    ((connect "memory").run (.standard (twoFields "no"))).2.HoldsRows ∅ := by
  have hcount : (twoFields "no").fieldCount = .ok 2 := rfl
  exact Registry.holdsRows_of_engines_eq (connect_memory hcount rfl connect_twoFields_overlaying).1

theorem holdsRows_merging :
    ((connect "memory").run (.standard (twoFields "yes"))).2.HoldsRows ∅ := by
  have hcount : (twoFields "yes").fieldCount = .ok 2 := rfl
  exact Registry.holdsRows_of_engines_eq (connect_memory hcount rfl connect_twoFields_merging).1

theorem holdsTuples_twoFields :
    ((connect "tuple").run (.standard (twoFields "no"))).2.HoldsTuples twoFieldLayout ∅ := by
  have hcount : (twoFields "no").fieldCount = .ok twoFieldLayout.fieldCount := rfl
  exact Registry.holdsTuples_of_engines_eq (connect_tuple hcount connect_twoFields_tuple).1

/-! ## One table behind all adapters -/

/-- Adapters that share the key-value engine in memory answer a history of operations as one table
does, whoever performs which of them. -/
theorem performAll_memory_eq_table [Machine] {count : Nat} {clients : List Adapter}
    (hcount : p.fieldCount = .ok fieldCount)
    (hoverlays : p.bool "memory.mergeupdate" false = .ok false)
    (hclients : (connectAll "memory" count).run (.standard p) = (.ok clients, r))
    {steps : List (Adapter × Operation)} (hsteps : ∀ step ∈ steps, step.1 ∈ clients)
    (hencodable : ∀ step ∈ steps, step.2.Encodable) :
    ((performAll steps).run r).1 =
      ((Table.performAll fieldCount (steps.map Prod.snd)).run ∅).1 := by
  have hadapters := connectAll_memory hcount hoverlays hclients
  have hstep : ∀ (step : Adapter × Operation) (r : Registry) (t : Table), r.HoldsRows t →
      step ∈ steps →
      ((step.1.exchange step.2).run r).1 = ((Table.exchange fieldCount step.2).run t).1 ∧
        ((step.1.exchange step.2).run r).2.HoldsRows
          ((Table.exchange fieldCount step.2).run t).2 := by
    intro step r t hr hmem
    obtain ⟨-, ea, hea, hbinding⟩ := hadapters step.1 (hsteps step hmem)
    have hadmits : t.Admits step.2 := by
      obtain ⟨e, -, hholds, -⟩ := hr
      exact hholds.admits (hencodable step hmem)
    obtain ⟨hanswer, hnext⟩ := perform_overlaying hbinding hr hadmits
    rw [hea]
    exact ⟨congrArg (Exchange.mk step.2) hanswer, hnext⟩
  cases steps with
  | nil => rfl
  | cons first rest =>
    have hengines := (hadapters first.1 (hsteps first List.mem_cons_self)).1
    have hmem : ∀ done step later, first :: rest = done ++ step :: later →
        step ∈ first :: rest := by
      intro done step later hsplit
      rw [hsplit]
      exact List.mem_append_right _ List.mem_cons_self
    have hrun := run_mapM_simulates hstep (Registry.holdsRows_of_engines_eq hengines) hmem
    rw [Table.performAll, List.mapM_map]
    exact hrun.1

section

attribute [local instance] Machine.largest

theorem performAll_twoFields :
    ((performAll (twoFieldHistory.map (engine (twoFieldRows false), ·))).run
      ((connectAll "memory" 2).run (.standard (twoFields "no"))).2).1 =
      [⟨.insert [0] twoFieldRow, .ok .ok⟩, ⟨.update [0] [⟨"field1", [3]⟩], .ok .ok⟩,
        ⟨.read [0] none, .ok (some [⟨"field0", [1]⟩, ⟨"field1", [3]⟩])⟩,
        ⟨.scan [] 1 (some ["field1"]), .ok [[⟨"field1", [3]⟩]]⟩] := by
  have hclients : (connectAll "memory" 2).run (.standard (twoFields "no")) =
      (.ok [engine (twoFieldRows false), engine (twoFieldRows false)],
        ((connectAll "memory" 2).run (.standard (twoFields "no"))).2) := Prod.ext rfl rfl
  exact (performAll_memory_eq_table rfl rfl hclients (by simp) (by decide)).trans rfl

end

/-! ## Rows in either representation -/

/-- A tuple adapter answers a history that keeps to the schema as a key-value adapter does, until
that one refuses a row that is too long for its encoding; by `not_tooLong_of_encodable` it refuses
none while names and values are short enough. Neither changes anything when an update names a field
outside the schema. -/
theorem performHistory_memory_eq_tuple [Machine] {memory tuple : Adapter}
    (hp : p.fieldCount = .ok layout.fieldCount)
    (hoverlays : p.bool "memory.mergeupdate" false = .ok false)
    (hq : q.fieldCount = .ok layout.fieldCount) (hstem : q.fieldStem = layout.stem)
    (hmemory : (connect "memory").run (.standard p) = (.ok memory, r))
    (htuple : (connect "tuple").run (.standard q) = (.ok tuple, s))
    (hconforms : ∀ op ∈ history, layout.Conforms op)
    (hlong : ∀ x ∈ ((memory.performHistory history).run r).1, ¬ x.TooLong) :
    let left := (memory.performHistory history).run r
    let right := (tuple.performHistory history).run s
    left.1 = right.1 ∧
      ∀ key updates u, updates.find? (fun u => u.name ∉ layout.schema) = some u →
        let known := ((Table.performAll layout.fieldCount history).run ∅).2[key]?.isSome
        let answer : Except Failure Status :=
          if known then .error (.raised (.unknownField u.name)) else .ok .notFound
        let left' := (memory.perform (.update key updates)).run left.2
        let right' := (tuple.perform (.update key updates)).run right.2
        left'.1 = answer ∧ memory.stored left'.2 = memory.stored left.2 ∧
          right'.1 = answer ∧ tuple.stored right'.2 = tuple.stored right.2 := by
  obtain ⟨hengines, ea, rfl, hbinding⟩ := connect_memory hp hoverlays hmemory
  obtain ⟨hengines', hfits, ea', rfl, hbinding'⟩ := connect_tuple hq htuple
  rw [hstem] at hbinding'
  obtain ⟨hleft, hrows⟩ :=
    performHistory_overlaying hbinding (Registry.holdsRows_of_engines_eq hengines) hlong
  obtain ⟨hright, htuples⟩ :=
    performHistory_tuple hbinding' hfits (Registry.holdsTuples_of_engines_eq hengines') hconforms
  refine ⟨hleft.trans hright.symm, ?_⟩
  intro key updates u hu known answer left' right'
  let t := ((Table.performAll layout.fieldCount history).run ∅).2
  have hnames : ∀ row : Row, t[key]? = some row → row.names = layout.schema := by
    obtain ⟨e, -, hholds⟩ := htuples
    exact hholds.names_eq key
  have hadmits : t.Admits (.update key updates) := by
    intro row hrow hunknown
    rw [Row.firstUnknown?, hnames row hrow, hu] at hunknown
    cases hunknown
  have htable := Table.perform_update_unknown layout.fieldCount hnames hu
  obtain ⟨hanswer, hrows'⟩ := perform_overlaying hbinding hrows hadmits
  have hconforms' : layout.Conforms (.update key updates) := trivial
  obtain ⟨hanswer', htuples'⟩ := perform_tuple hbinding' hfits htuples hconforms'
  rw [htable] at hanswer hrows' hanswer' htuples'
  refine ⟨hanswer, ?_, hanswer', ?_⟩
  · rw [stored_of_holdsRows hbinding hrows', stored_of_holdsRows hbinding hrows]
  · rw [stored_of_holdsTuples hbinding' htuples', stored_of_holdsTuples hbinding' htuples]

section

attribute [local instance] Machine.largest

theorem performHistory_twoFields :
    (((engine (twoFieldRows false)).performHistory twoFieldHistory).run
        ((connect "memory").run (.standard (twoFields "no"))).2).1 =
      (((engine twoFieldTuples).performHistory twoFieldHistory).run
        ((connect "tuple").run (.standard (twoFields "no"))).2).1 := by
  have hcount : (twoFields "no").fieldCount = .ok twoFieldLayout.fieldCount := rfl
  have hbinding : (twoFieldRows false).binding = some (.keyValue 0 ⟨2, false⟩) := rfl
  have hencodable : ∀ op ∈ twoFieldHistory, op.Encodable := by decide
  have hlong := not_tooLong_of_encodable hbinding holdsRows_overlaying hencodable fun h => nomatch h
  exact (performHistory_memory_eq_tuple hcount rfl hcount rfl connect_twoFields_overlaying
    connect_twoFields_tuple (by decide) hlong).1

/-- A value that is too long to be encoded is refused as part of a row and held as part of a
tuple. -/
theorem performHistory_long_row :
    let op : Operation := .insert [0] [longField, ⟨"field1", [2]⟩]
    twoFieldLayout.Conforms op ∧
      (∃ part length, (((engine (twoFieldRows false)).performHistory [op]).run
          ((connect "memory").run (.standard (twoFields "no"))).2).1 =
        [⟨op, .error (.raised (.invalidArgument (.longPart part length)))⟩]) ∧
      (((engine twoFieldTuples).performHistory [op]).run
        ((connect "tuple").run (.standard (twoFields "no"))).2).1 = [⟨op, .ok .ok⟩] := by
  intro op
  have hconforms : twoFieldLayout.Conforms op := rfl
  have hbinding : (twoFieldRows false).binding = some (.keyValue 0 ⟨2, false⟩) := rfl
  have hbinding' : twoFieldTuples.binding = some (.tuple 0 ⟨twoFieldLayout⟩) := rfl
  obtain ⟨part, length, hrefused, -⟩ := perform_insert_refused hbinding holdsRows_overlaying
    (not_encodable_of_longField [⟨"field1", [2]⟩]) [0]
  obtain ⟨hheld, -⟩ := perform_tuple hbinding' (by decide) holdsTuples_twoFields hconforms
  refine ⟨hconforms, ⟨part, length, ?_⟩, ?_⟩
  · rw [run_performHistory_cons, hrefused, run_performHistory_nil]
  · rw [run_performHistory_cons, hheld, run_performHistory_nil]
    rfl

end

/-! ## Merging and overlaying -/

/-- An update with the names of the stored row, all different, becomes the stored row. -/
theorem storedValue?_perform_update [Machine] {mergesUpdates : Bool} {key new : Bytes}
    {row updates : Row}
    (hbinding : ea.binding = some (.keyValue 0 ⟨fieldCount, mergesUpdates⟩)) (hr : r.HoldsRows t)
    (hrow : t[key]? = some row) (hnames : updates.names = row.names)
    (hnodup : updates.names.Nodup) (hnew : updates.encode? = .ok new) :
    (engine ea).storedValue? (((engine ea).perform (.update key updates)).run r).2 key =
      some new := by
  obtain ⟨hupdates, rfl⟩ := Row.encode?_eq_ok_iff.1 hnew
  have hknown : ∀ u ∈ updates, u.name ∈ row.names := by
    intro u hu
    rw [← hnames]
    exact List.mem_map_of_mem hu
  have hstored : (engine ea).NamesStored r (.update key updates) := by
    intro value stored hvalue hdecode
    have hheld := getElem?_of_storedValue? hbinding hr hvalue hdecode
    cases hrow.symm.trans hheld
    exact hknown
  have htable : (t.perform fieldCount (.update key updates)).2 = t.insert key updates := by
    simp only [Table.perform, Table.update, hrow, Row.firstUnknown?_eq_none_iff.2 hknown,
      Row.assignAll_eq_self hnames hnodup]
  have hrows : (((engine ea).perform (.update key updates)).run r).2.HoldsRows
      (t.insert key updates) := by
    have hop : (Operation.update key updates).Encodable := hupdates
    rw [← htable]
    cases mergesUpdates with
    | true => exact (perform_merging hbinding hr hop hstored).2
    | false =>
      obtain ⟨e, -, hholds, -⟩ := id hr
      exact (perform_overlaying hbinding hr (hholds.admits hop)).2
  rw [storedValue?_of_holdsRows hbinding hrows, Std.ExtTreeMap.getElem?_insert_self,
    Option.map_some]

/-- An adapter that merges updates answers a history as one that overlays them and stores the same
bytes, provided that updates of present keys name stored fields and none of them is refused for its
length, which by `not_tooLong_of_encodable` takes a name or value that cannot be encoded. An update
with the names of the stored row, all different, becomes the stored row. -/
theorem performHistory_merging_eq_overlaying [Machine] {merging overlaying : Adapter}
    (hp : p.fieldCount = .ok fieldCount) (hmerges : p.bool "memory.mergeupdate" false = .ok true)
    (hq : q.fieldCount = .ok fieldCount) (hoverlays : q.bool "memory.mergeupdate" false = .ok false)
    (hmerging : (connect "memory").run (.standard p) = (.ok merging, r))
    (hoverlaying : (connect "memory").run (.standard q) = (.ok overlaying, s))
    (hknown : ∀ done op rest, history = done ++ op :: rest →
      merging.NamesStored ((merging.performHistory done).run r).2 op)
    (hlong : ∀ x ∈ ((merging.performHistory history).run r).1, x.op.kind = .update → ¬ x.TooLong) :
    let left := (merging.performHistory history).run r
    let right := (overlaying.performHistory history).run s
    left.1 = right.1 ∧ merging.stored left.2 = overlaying.stored right.2 ∧
      ∀ key updates old row new, merging.storedValue? left.2 key = some old →
        Row.decode? old = .ok row → updates.names = row.names → updates.names.Nodup →
        updates.encode? = .ok new →
        let left' := (merging.perform (.update key updates)).run left.2
        let right' := (overlaying.perform (.update key updates)).run right.2
        merging.storedValue? left'.2 key = some new ∧
          overlaying.storedValue? right'.2 key = some new := by
  obtain ⟨hengines, ea, rfl, hbinding⟩ := connect_memory hp hmerges hmerging
  obtain ⟨hengines', ea', rfl, hbinding'⟩ := connect_memory hq hoverlays hoverlaying
  obtain ⟨hanswers, t, hr, hs⟩ := performHistory_lockstep hbinding hbinding'
    (Registry.holdsRows_of_engines_eq hengines) (Registry.holdsRows_of_engines_eq hengines')
    hknown hlong
  refine ⟨hanswers, ?_, ?_⟩
  · rw [stored_of_holdsRows hbinding hr, stored_of_holdsRows hbinding' hs]
  · intro key updates old row new hold hdecode hnames hnodup hnew left' right'
    have hrow := getElem?_of_storedValue? hbinding hr hold hdecode
    exact ⟨storedValue?_perform_update hbinding hr hrow hnames hnodup hnew,
      storedValue?_perform_update hbinding' hs hrow hnames hnodup hnew⟩

section

attribute [local instance] Machine.largest

/-- An update that follows the insert names stored fields if it names fields of the row inserted. -/
theorem namesStored_twoFields (updates : Row) (h : ∀ u ∈ updates, u.name ∈ twoFieldRow.names) :
    ∀ done op rest, [.insert [0] twoFieldRow, .update [0] updates] = done ++ op :: rest →
      (engine (twoFieldRows true)).NamesStored
        (((engine (twoFieldRows true)).performHistory done).run
          ((connect "memory").run (.standard (twoFields "yes"))).2).2 op := by
  have hstored : (engine (twoFieldRows true)).storedValue?
      (((engine (twoFieldRows true)).performHistory (twoFieldHistory.take 1)).run
        ((connect "memory").run (.standard (twoFields "yes"))).2).2 [0] =
          some twoFieldRow.bytes := rfl
  have hrow : Row.decode? twoFieldRow.bytes = .ok twoFieldRow :=
    Row.decode?_eq_ok_iff.2 ⟨by decide, rfl⟩
  intro done op rest hsplit
  rcases done with _ | ⟨first, _ | ⟨second, done⟩⟩
  · cases hsplit
    trivial
  · cases hsplit
    intro value row hvalue hdecode
    cases hstored.symm.trans hvalue
    cases hrow.symm.trans hdecode
    exact h
  · simp at hsplit

theorem stored_twoFields :
    (engine (twoFieldRows true)).stored
        (((engine (twoFieldRows true)).performHistory (twoFieldHistory.take 2)).run
          ((connect "memory").run (.standard (twoFields "yes"))).2).2 =
      (engine (twoFieldRows false)).stored
        (((engine (twoFieldRows false)).performHistory (twoFieldHistory.take 2)).run
          ((connect "memory").run (.standard (twoFields "no"))).2).2 := by
  have hcount : (twoFields "yes").fieldCount = .ok 2 := rfl
  have hcount' : (twoFields "no").fieldCount = .ok 2 := rfl
  have hbinding : (twoFieldRows true).binding = some (.keyValue 0 ⟨2, true⟩) := rfl
  have hencodable : ∀ op ∈ twoFieldHistory.take 2, op.Encodable := by decide
  have hknown := namesStored_twoFields [⟨"field1", [3]⟩] (by decide)
  have hlong := not_tooLong_of_encodable hbinding holdsRows_merging hencodable fun _ => hknown
  exact (performHistory_merging_eq_overlaying hcount rfl hcount' rfl connect_twoFields_merging
    connect_twoFields_overlaying hknown fun x hx _ => hlong x hx).2.1

/-- An update that names a field first with a value too long to be encoded and then with another is
refused where it is merged and accepted where it is overlaid. -/
theorem performHistory_long_update :
    let insert : Operation := .insert [0] twoFieldRow
    let update : Operation := .update [0] [longField, ⟨"field0", [1]⟩]
    (∀ done op rest, [insert, update] = done ++ op :: rest →
        (engine (twoFieldRows true)).NamesStored
          (((engine (twoFieldRows true)).performHistory done).run
            ((connect "memory").run (.standard (twoFields "yes"))).2).2 op) ∧
      (∃ part length, (((engine (twoFieldRows true)).performHistory [insert, update]).run
          ((connect "memory").run (.standard (twoFields "yes"))).2).1 =
        [⟨insert, .ok .ok⟩,
          ⟨update, .error (.raised (.invalidArgument (.longPart part length)))⟩]) ∧
      (((engine (twoFieldRows false)).performHistory [insert, update]).run
          ((connect "memory").run (.standard (twoFields "no"))).2).1 =
        [⟨insert, .ok .ok⟩, ⟨update, .ok .ok⟩] := by
  intro insert update
  have hbinding : (twoFieldRows true).binding = some (.keyValue 0 ⟨2, true⟩) := rfl
  have hbinding' : (twoFieldRows false).binding = some (.keyValue 0 ⟨2, false⟩) := rfl
  have hinsert : insert.Encodable := by decide
  obtain ⟨hleft, hr⟩ := perform_merging hbinding holdsRows_merging hinsert trivial
  have hencodable : Table.Admits ∅ insert := hinsert
  obtain ⟨hright, hs⟩ := perform_overlaying hbinding' holdsRows_overlaying hencodable
  have hrow : ((∅ : Table).insert [0] twoFieldRow)[([0] : Bytes)]? = some twoFieldRow := by simp
  obtain ⟨part, length, hrefused⟩ := perform_update_refused hbinding hr hrow
    (not_encodable_of_longField [⟨"field0", [1]⟩])
  have hadmits : Table.Admits ((∅ : Table).insert [0] twoFieldRow) update := by
    intro row hrow' _
    cases hrow.symm.trans hrow'
    have hassigned : twoFieldRow.assignAll [longField, ⟨"field0", [1]⟩] =
        [⟨"field0", [1]⟩, ⟨"field1", [2]⟩] := rfl
    rw [hassigned]
    decide
  obtain ⟨haccepted, -⟩ := perform_overlaying hbinding' hs hadmits
  refine ⟨namesStored_twoFields _ (by decide), ⟨part, length, ?_⟩, ?_⟩
  · rw [run_performHistory_cons, run_performHistory_cons, hleft, hrefused, run_performHistory_nil]
    rfl
  · rw [run_performHistory_cons, run_performHistory_cons, hright, haccepted,
      run_performHistory_nil]
    rfl

end

end StoreBench.Adapter
