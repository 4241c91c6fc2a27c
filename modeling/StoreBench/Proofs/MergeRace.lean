import StoreBench.Proofs.Calls
import StoreBench.Proofs.Crew
import StoreBench.Proofs.Equivalence
/-!
# Merging updates under concurrency

Adapters that merge their updates share one key-value engine and make their calls of it in any
order. An update looks whether its key is there and then merges, which are two calls, so a row that
is deleted in between is brought back with the updated fields only. As long as no key is deleted
between the two calls of another adapter's update of it, every merge finds a row, every stored row
has all its fields, and nothing that is read is corrupt.
-/

namespace StoreBench

variable {fieldCount : Nat} {names : List String} {key value : Bytes}

/-- Whether an operation writes every one of the fields, or only some that are among them. -/
def Operation.Covers (names : List String) : Operation → Prop
  | .insert _ row => row.names.Perm names
  | .update _ updates => ∀ u ∈ updates, u.name ∈ names
  | _ => True

/-- The value encodes a row with all of the fields. -/
def IsWhole (names : List String) (value : Bytes) : Prop :=
  ∃ row : Row, row.Encodable ∧ row.names.Perm names ∧ row.bytes = value

/-- The engine merges rows, and every one it holds has all of the fields. -/
def KeyValueEngine.HoldsWhole (names : List String) (e : KeyValueEngine) : Prop :=
  e.mergeOperator = some Row.mergeEncoded ∧ ∃ t : Table, e.Holds t ∧
    ∀ (key : Bytes) (row : Row), t[key]? = some row → row.names.Perm names

/-- An adapter stores whole rows, and merges known fields under the key it just found. It is shown
whole rows. -/
def wholeRows (names : List String) : Protocol keyValueCalls (Option Bytes) where
  allows found
    | .put _ value => IsWhole names value
    | .merge key operand => found = some key ∧
        ∃ updates : Row, updates.Encodable ∧ (∀ u ∈ updates, u.name ∈ names) ∧
          operand = updates.bytes
    | _ => True
  expects _
    | .get _, answer => ∃ found, answer = .ok found ∧ ∀ value, found = some value →
        IsWhole names value
    | .visit _, answer => ∃ entries, answer = .ok entries ∧ ∀ x ∈ entries, IsWhole names x.2
    | .put .., answer | .merge .., answer | .delete _, answer => answer = .ok ()
  next _
    | .get key, .ok (some _) => some key
    | _, _ => none

/-- A failure that is not about a corrupt row. -/
def Failure.SparesRows (failure : Failure) : Prop := ∀ cause, failure ≠ .raised (.corruptRow cause)

theorem Failure.sparesRows_invalidArgument (cause : BadArgument) :
    Failure.SparesRows (.raised (.invalidArgument cause)) := by
  rintro _ ⟨⟩

/-! ## What an operation calls -/

namespace SchemalessFormat

variable {f : SchemalessFormat} {k : Option Bytes}

theorem follows_decodeStored (hcount : f.fieldCount = names.length) (hvalue : IsWhole names value)
    (fields : Selection) :
    (f.decodeStored key value fields).Follows (wholeRows names) Failure.SparesRows
      (fun _ _ => True) k := by
  obtain ⟨row, hrow, hnames, rfl⟩ := hvalue
  cases fields with
  | some wanted =>
    rw [decodeStored, Attempt.follows_ofProgram, Row.follows_select, Row.select?_bytes hrow]
    trivial
  | none =>
    have hlength : row.length = f.fieldCount := by
      rw [hcount, ← hnames.length_eq, Row.names, List.length_map]
    rw [decodeStored, Attempt.follows_bind, Attempt.follows_ofProgram, Row.follows_decode,
      Row.decode?_eq_ok_iff.2 ⟨hrow, rfl⟩]
    simp [mapError_ok, hlength]

theorem reads_wholeRows (hcount : f.fieldCount = names.length) :
    f.Reads (wholeRows names) Failure.SparesRows (IsWhole names) where
  allows_get _ _ := trivial
  allows_visit _ _ := trivial
  allows_delete _ _ := trivial
  got _ _ value := by
    rintro ⟨_, hfound, hwhole⟩
    exact hwhole value (Except.ok.inj hfound).symm
  visited _ _ entries := by
    rintro ⟨_, hentries, hwhole⟩
    cases hentries
    exact hwhole
  fails_get _ _ _ := by
    rintro ⟨_, hfound, -⟩
    cases hfound
  fails_visit _ _ _ := by
    rintro ⟨_, hentries, -⟩
    cases hentries
  fails_delete _ _ _ := nofun
  fails_bounds := Failure.sparesRows_invalidArgument
  shows _ _ _ fields hvalue := follows_decodeStored hcount hvalue fields

theorem follows_insert {row : Row} (hrow : row.names.Perm names) :
    (insert key row).Follows (wholeRows names) Failure.SparesRows (fun _ _ => True) k := by
  rw [insert, Attempt.follows_bind, Attempt.follows_ofProgram, Row.follows_encode]
  cases hencode : row.encode? with
  | error cause => exact Failure.sparesRows_invalidArgument cause
  | ok value =>
    obtain ⟨hencodable, rfl⟩ := Row.encode?_eq_ok_iff.1 hencode
    refine ⟨⟨row, hencodable, hrow, rfl⟩, ?_⟩
    rintro _ rfl
    trivial

theorem follows_mergeUpdate (hcount : f.fieldCount = names.length) {updates : Row}
    (hupdates : ∀ u ∈ updates, u.name ∈ names) :
    (mergeUpdate key updates).Follows (wholeRows names) Failure.SparesRows
      (fun _ _ => True) k := by
  refine (reads_wholeRows hcount).follows_get fun found _ _ => ?_
  cases found with
  | none => trivial
  | some value =>
    refine Attempt.follows_bind.2 (Attempt.follows_ofProgram.2 (Row.follows_encode.2 ?_))
    cases hencode : updates.encode? with
    | error cause => exact Failure.sparesRows_invalidArgument cause
    | ok operand =>
      obtain ⟨hencodable, rfl⟩ := Row.encode?_eq_ok_iff.1 hencode
      refine ⟨⟨rfl, updates, hencodable, hupdates, rfl⟩, ?_⟩
      rintro _ rfl
      trivial

/-- Every operation that covers the fields keeps to the calls of whole rows. -/
theorem follows_perform (hmerges : f.mergesUpdates = true) (hcount : f.fieldCount = names.length)
    {op : Operation} (hop : op.Covers names) :
    (f.perform op).Follows (wholeRows names) Failure.SparesRows (fun _ _ => True) k := by
  cases op with
  | insert key row => exact follows_insert hop
  | update key updates =>
    rw [perform, update, if_pos hmerges]
    exact follows_mergeUpdate hcount hop
  | _ =>
    exact (reads_wholeRows hcount).follows_perform (by simp [Operation.kind])
      (by simp [Operation.kind])

end SchemalessFormat

/-! ## What the engine answers -/

namespace KeyValueEngine.HoldsWhole

variable {e : KeyValueEngine} (h : e.HoldsWhole names)

theorem fresh (name : String) :
    (KeyValueEngine.fresh name (some Row.mergeEncoded)).HoldsWhole names :=
  ⟨rfl, ∅, .fresh name _, by simp⟩

include h

theorem isWhole_of_getElem? {value : Bytes} (hvalue : e.entries[key]? = some value) :
    IsWhole names value := by
  obtain ⟨-, t, hholds, hnames⟩ := h
  rw [hholds.getElem?_entries] at hvalue
  obtain ⟨row, hrow, rfl⟩ := Option.map_eq_some_iff.1 hvalue
  exact ⟨row, hholds.encodable key row hrow, hnames key row hrow, rfl⟩

theorem isWhole_of_mem_entriesFrom {start : Bytes} {x : Bytes × Bytes}
    (hx : x ∈ e.entries.entriesFrom start) : IsWhole names x.2 := by
  have hmem : x ∈ e.entries.toList := (List.dropWhile_sublist _).mem hx
  exact h.isWhole_of_getElem? (Std.ExtTreeMap.mem_toList_iff_getElem?_eq_some.1 hmem)

theorem store (hvalue : IsWhole names value) : (e.store key value).HoldsWhole names := by
  obtain ⟨row, hrow, hnames, rfl⟩ := hvalue
  obtain ⟨hmerge, t, hholds, hall⟩ := h
  refine ⟨hmerge, t.insert key row, hholds.store hrow key, fun k held hheld => ?_⟩
  rw [Std.ExtTreeMap.getElem?_insert] at hheld
  split at hheld
  · cases hheld; exact hnames
  · exact hall k held hheld

theorem drop : (e.drop key).HoldsWhole names := by
  obtain ⟨hmerge, t, hholds, hall⟩ := h
  refine ⟨hmerge, t.erase key, hholds.drop key, fun k held hheld => ?_⟩
  rw [Std.ExtTreeMap.getElem?_erase] at hheld
  split at hheld
  · cases hheld
  · exact hall k held hheld

theorem isOpen : e.closed = false := by
  obtain ⟨-, t, hholds, -⟩ := h
  exact hholds.isOpen

/-- Known fields merged into a row that is there leave a whole row in its place. -/
theorem serve_merge {updates : Row} (hupdates : updates.Encodable)
    (hknown : ∀ u ∈ updates, u.name ∈ names) (hkey : key ∈ e.entries) :
    ∃ merged, IsWhole names merged ∧
      e.serve (.merge key updates.bytes) = (.ok (), e.store key merged) := by
  obtain ⟨value, hvalue⟩ :=
    Option.isSome_iff_exists.1 (Std.ExtTreeMap.mem_iff_isSome_getElem?.1 hkey)
  obtain ⟨row, hrow, hnames, rfl⟩ := h.isWhole_of_getElem? hvalue
  have hall : ∀ u ∈ updates, u.name ∈ row.names := fun u hu => hnames.mem_iff.2 (hknown u hu)
  have hassigned : (row.assignAll updates).Encodable := hrow.assignAll hupdates
  have hmerged : (Row.mergeEncoded e.entries[key]? updates.bytes).value =
      .ok (row.assignAll updates).bytes := by
    rw [hvalue, Row.value_mergeEncoded hrow hupdates, Row.merge_eq_assignAll hall,
      Row.encode?_eq_bytes hassigned]
    rfl
  refine ⟨_, ⟨_, hassigned, ?_, rfl⟩, KeyValueEngine.run_merge h.isOpen h.1 key _ hmerged⟩
  rw [Row.names_assignAll]
  exact hnames

/-- The engine answers allowed calls as expected while merges find their keys, and stays whole. -/
theorem serve {found : Option Bytes} {call : KeyValueCall}
    (hallowed : (wholeRows names).allows found call)
    (hpresent : ∀ key operand, call = .merge key operand → key ∈ e.entries) :
    (wholeRows names).expects found call (e.serve call).1 ∧ (e.serve call).2.HoldsWhole names := by
  cases call with
  | get key =>
    rw [← KeyValueEngine.run_attempt, KeyValueEngine.run_get h.isOpen]
    exact ⟨⟨_, rfl, fun value hvalue => h.isWhole_of_getElem? hvalue⟩, h⟩
  | put key value =>
    rw [← KeyValueEngine.run_attempt, KeyValueEngine.run_put h.isOpen]
    exact ⟨rfl, h.store hallowed⟩
  | merge key operand =>
    obtain ⟨-, updates, hupdates, hknown, rfl⟩ := hallowed
    obtain ⟨merged, hmerged, hserve⟩ := h.serve_merge hupdates hknown (hpresent key _ rfl)
    rw [hserve]
    exact ⟨rfl, h.store hmerged⟩
  | delete key =>
    rw [← KeyValueEngine.run_attempt, KeyValueEngine.run_delete h.isOpen]
    exact ⟨rfl, h.drop⟩
  | visit start =>
    rw [← KeyValueEngine.run_attempt, KeyValueEngine.run_visit h.isOpen]
    exact ⟨⟨_, rfl, fun x hx => h.isWhole_of_mem_entriesFrom hx⟩, h⟩

/-- A key goes only when it is deleted. -/
theorem mem_serve {found : Option Bytes} {call : KeyValueCall}
    (hallowed : (wholeRows names).allows found call)
    (hpresent : ∀ key operand, call = .merge key operand → key ∈ e.entries)
    (hkey : key ∈ e.entries) (hcall : call ≠ .delete key) : key ∈ (e.serve call).2.entries := by
  cases call with
  | get other =>
    rw [← KeyValueEngine.run_attempt, KeyValueEngine.run_get h.isOpen]
    exact hkey
  | put other value =>
    rw [← KeyValueEngine.run_attempt, KeyValueEngine.run_put h.isOpen]
    exact Std.ExtTreeMap.mem_insert.2 (.inr hkey)
  | merge other operand =>
    obtain ⟨-, updates, hupdates, hknown, rfl⟩ := hallowed
    obtain ⟨merged, -, hserve⟩ := h.serve_merge hupdates hknown (hpresent other _ rfl)
    rw [hserve]
    exact Std.ExtTreeMap.mem_insert.2 (.inr hkey)
  | delete other =>
    rw [← KeyValueEngine.run_attempt, KeyValueEngine.run_delete h.isOpen]
    have hne : Bytes.order other key ≠ .eq := by
      intro heq
      exact hcall (congrArg KeyValueCall.delete (Bytes.order_eq_eq_iff.1 heq))
    exact Std.ExtTreeMap.mem_erase.2 ⟨hne, hkey⟩
  | visit start =>
    rw [← KeyValueEngine.run_attempt, KeyValueEngine.run_visit h.isOpen]
    exact hkey

/-- A key that is known to be there was just found. -/
theorem mem_of_next {found : Option Bytes} {call : KeyValueCall}
    (hnext : (wholeRows names).next found call (e.serve call).1 = some key) :
    key ∈ (e.serve call).2.entries := by
  cases call with
  | get other =>
    rw [← KeyValueEngine.run_attempt, KeyValueEngine.run_get h.isOpen] at hnext ⊢
    cases hvalue : e.entries[other]? with
    | none => rw [hvalue] at hnext; cases hnext
    | some value =>
      rw [hvalue] at hnext
      cases hnext
      exact Std.ExtTreeMap.mem_iff_isSome_getElem?.2 (by rw [hvalue]; rfl)
  | _ => cases hnext

end KeyValueEngine.HoldsWhole

/-! ## Every schedule -/

namespace Crew

variable {α : Type} {n : Nat} {c : Crew keyValueCalls α KeyValueEngine n} {i : Fin n}

/-- The members' calls are answered by the one engine. -/
abbrev ofEngine (_ : Fin n) (call : KeyValueCall) (e : KeyValueEngine) :
    Except Failure call.Result × KeyValueEngine := e.serve call

/-- Every merge that is called next finds its key. -/
def MergesFind (c : Crew keyValueCalls α KeyValueEngine n) : Prop :=
  ∀ i key operand, (c.members i).request? = some (.merge key operand) → key ∈ c.shared.entries

/-- The turn deletes no key that another member found and is about to merge into. -/
def SparesFound (c : Crew keyValueCalls α KeyValueEngine n) (i : Fin n) : Prop :=
  ∀ key, (c.members i).request? = some (.delete key) →
    ∀ j, j ≠ i → ∀ operand, (c.members j).request? ≠ some (.merge key operand)

/-- One call of any member. -/
theorem Conforms.turn_wholeRows {ends : Fin n → Option Bytes → α → Prop}
    (h : c.Conforms (wholeRows names) ends fun _ c => c.shared.HoldsWhole names ∧ c.MergesFind)
    (hspares : c.SparesFound i) :
    (c.turn ofEngine i).Conforms (wholeRows names) ends
      fun _ c => c.shared.HoldsWhole names ∧ c.MergesFind := by
  refine h.turn fun known call rest hfollows hI hpending hallowed => ?_
  obtain ⟨hwhole, hfind⟩ := hI
  have hcall : (c.members i).request? = some call := by rw [Program.request?, hpending]; rfl
  have hpresent : ∀ key operand, call = .merge key operand → key ∈ c.shared.entries := by
    rintro key operand rfl
    exact hfind i key operand hcall
  obtain ⟨hexpected, hwhole'⟩ := hwhole.serve hallowed hpresent
  refine ⟨hexpected, ?_⟩
  rw [turn_of_pending_inr hpending]
  refine ⟨hwhole', fun j key operand hmerge => ?_⟩
  by_cases hj : j = i
  · -- The member merges right after it found the key.
    subst hj
    simp only [Function.update_self] at hmerge
    have hrest := ((hfollows j).of_pending_inr hpending).2 _ hexpected
    exact hwhole.mem_of_next (hrest.allows hmerge).1
  · simp only [Function.update_of_ne hj] at hmerge
    refine hwhole.mem_serve hallowed hpresent (hfind j key operand hmerge) ?_
    rintro rfl
    exact hspares key hcall j hj operand hmerge

/-- What members know at the end of an operation does not matter for the next. -/
theorem conforms_start {members : Fin n → Program keyValueCalls α} {e : KeyValueEngine}
    {ends : Fin n → Option Bytes → α → Prop}
    (hmembers : ∀ i, (members i).Follows (wholeRows names) (ends i) none)
    (he : e.HoldsWhole names) :
    (start members e).Conforms (wholeRows names) ends
      fun _ c => c.shared.HoldsWhole names ∧ c.MergesFind := by
  refine ⟨fun _ => none, hmembers, he, fun i key operand hmerge => ?_⟩
  cases ((hmembers i).allows hmerge).1

end Crew

namespace Adapter

variable {p : Properties} {r : Registry} {ea : EngineAdapter} {e : KeyValueEngine}

/-- The calls an adapter makes of the key-value engine it is bound to, with what comes of the
operation. -/
def calls (a : Adapter) (op : Operation) : Program keyValueCalls Exchange :=
  match a with
  | engine ⟨_, _, _, some (.keyValue _ f)⟩ => do return ⟨op, ← (f.perform op).run⟩
  | _ => return ⟨op, .error .fault⟩

/-- Adapters at the start of a history each, on an engine that they share. -/
def crew (clients : List Adapter) (histories : Fin clients.length → List Operation)
    (e : KeyValueEngine) : Crew keyValueCalls (List Exchange) KeyValueEngine clients.length :=
  .start (fun i => (histories i).mapM clients[i].calls) e

/-- Adapters that merge their updates, none of which deletes a key that another is about to merge
into, only merge into stored rows, so that no stored row ever lacks a field and none is found
corrupt. The histories and the schedule of the calls may be any. -/
theorem crew_merging_whole {fieldCount count : Nat} {clients : List Adapter}
    (hcount : p.fieldCount = .ok fieldCount)
    (hmerges : p.bool "memory.mergeupdate" false = .ok true)
    (hclients : (connectAll "memory" count).run (.standard p) = (.ok clients, r))
    (hengine : r.engines[0]? = some (.keyValue e))
    {histories : Fin clients.length → List Operation}
    (hcovers : ∀ i, ∀ op ∈ histories i, op.Covers (ColumnLayout.schema ⟨p.fieldStem, fieldCount⟩))
    {schedule : List (Fin clients.length)}
    (hspares : Crew.Permits Crew.ofEngine Crew.SparesFound (crew clients histories e) schedule) :
    let c := (crew clients histories e).run Crew.ofEngine schedule
    c.MergesFind ∧
      (∀ (key value : Bytes), c.shared.entries[key]? = some value → ∃ row,
        Row.decode? value = .ok row ∧
          row.names.Perm (ColumnLayout.schema ⟨p.fieldStem, fieldCount⟩)) ∧
      ∀ i exchanges, (c.members i).result? = some exchanges →
        ∀ x ∈ exchanges, ∀ cause, x.answer ≠ .error (.raised (.corruptRow cause)) := by
  let layout : ColumnLayout := ⟨p.fieldStem, fieldCount⟩
  let spares : Exchange → Prop := fun x => ∀ cause, x.answer ≠ .error (.raised (.corruptRow cause))
  have hopened : e.HoldsWhole layout.schema := by
    have hshares : (Registry.standard p).Shares "memory" .memory := ⟨_, rfl, rfl, .inl ⟨rfl, rfl⟩⟩
    rcases (connectAll_ok (by decide) hshares hclients).1 with ⟨-, hnone⟩ | ⟨engine, hrun, hone⟩
    · rw [hnone] at hengine
      cases hengine
    · rw [hone, Opener.memory_ok hrun] at hengine
      cases hengine
      exact .fresh "memory"
  have hmembers : ∀ i k, ((histories i).mapM clients[i].calls).Follows (wholeRows layout.schema)
      (fun _ xs => ∀ x ∈ xs, spares x) k := by
    intro i k
    obtain ⟨-, ⟨_, _, _, _⟩, ha, hbinding⟩ :=
      connectAll_memory hcount hmerges hclients clients[i] (List.getElem_mem i.isLt)
    cases hbinding
    rw [ha]
    refine Program.follows_mapM (fun op hop k => Program.follows_bind.2 ?_) k
    have hlength : fieldCount = layout.schema.length := layout.length_schema.symm
    have hperform := SchemalessFormat.follows_perform (f := ⟨fieldCount, true⟩) (k := k) rfl
      hlength (hcovers i op hop)
    refine Program.Follows.imp hperform fun k result hresult => ?_
    cases result with
    | ok value => exact fun _ => nofun
    | error failure => exact fun cause hcause => hresult cause (Except.error.inj hcause)
  have hconforms := Crew.run_induction (fun _ _ h hi => Crew.Conforms.turn_wholeRows h hi)
    (Crew.conforms_start (fun i => hmembers i none) hopened) hspares
  obtain ⟨known, hfollows, hwhole, hfind⟩ := hconforms
  refine ⟨hfind, ?_, ?_⟩
  · intro key value hvalue
    obtain ⟨row, hrow, hnames, rfl⟩ := hwhole.isWhole_of_getElem? hvalue
    exact ⟨row, Row.decode?_eq_ok_iff.2 ⟨hrow, rfl⟩, hnames⟩
  · intro i exchanges hresult
    exact (hfollows i).of_pending_inl (Program.pending_eq_inl_iff.2 hresult)

/-! ## A store of two fields

One adapter stores a row, updates it and reads it back, another deletes it. -/

def updatedRowHistory : List Operation :=
  [.insert [0] twoFieldRow, .update [0] [⟨"field0", [9]⟩], .read [0] none]

def updateBesideDelete : Crew keyValueCalls (List Exchange) KeyValueEngine 2 :=
  crew [engine (twoFieldRows true), engine (twoFieldRows true)]
    (fun i => if i = 0 then updatedRowHistory else [.delete [0]])
    (.fresh "memory" (some Row.mergeEncoded))

theorem connectAll_twoFields_merging :
    (connectAll "memory" 2).run (.standard (twoFields "yes")) =
      (.ok [engine (twoFieldRows true), engine (twoFieldRows true)],
        ((connectAll "memory" 2).run (.standard (twoFields "yes"))).2) := Prod.ext rfl rfl

theorem covers_updateBesideDelete (i : Fin 2) :
    ∀ op ∈ if i = 0 then updatedRowHistory else [.delete [0]], op.Covers twoFieldLayout.schema := by
  have hall : ∀ op ∈ updatedRowHistory, op.Covers twoFieldLayout.schema := by
    refine List.forall_mem_cons.2 ⟨.refl _, List.forall_mem_cons.2 ⟨?_, ?_⟩⟩
    · intro u hu
      rw [List.mem_singleton.1 hu]
      decide
    · intro op hop
      rw [List.mem_singleton.1 hop]
      trivial
  split
  · exact hall
  · intro op hop
    rw [List.mem_singleton.1 hop]
    trivial

/-- The row is stored and found after the other adapter is done, and the update's merge is next. -/
theorem mergesFind_delete_before_update :
    let c := updateBesideDelete.run Crew.ofEngine [1, 0, 0]
    (c.members 0).request? = some (.merge [0] (Row.bytes [⟨"field0", [9]⟩])) ∧ c.MergesFind := by
  have hspares : Crew.Permits Crew.ofEngine Crew.SparesFound updateBesideDelete [1, 0, 0] := by
    refine ⟨?_, fun _ => nofun, fun _ => nofun, trivial⟩
    intro key _ j hj operand hmerge
    obtain rfl : j = 0 := by omega
    cases hmerge
  exact ⟨rfl, (crew_merging_whole rfl rfl connectAll_twoFields_merging rfl
    covers_updateBesideDelete hspares).1⟩

/-- The row is deleted after the update found it. The merge finds no row and stores the updated
field alone, and the row is corrupt when it is read. -/
theorem corruptRow_update_beside_delete :
    let before := updateBesideDelete.run Crew.ofEngine [0, 0, 1]
    let after := before.run Crew.ofEngine [0, 0]
    (connectAll "memory" 2).run (.standard (twoFields "yes")) =
        (.ok [engine (twoFieldRows true), engine (twoFieldRows true)],
          ((connectAll "memory" 2).run (.standard (twoFields "yes"))).2) ∧
      (before.members 0).request? = some (.merge [0] (Row.bytes [⟨"field0", [9]⟩])) ∧
      ([0] : Bytes) ∉ before.shared.entries ∧
      after.shared.entries[([0] : Bytes)]? = some (Row.bytes [⟨"field0", [9]⟩]) ∧
      (after.members 0).result? = some
        [⟨.insert [0] twoFieldRow, .ok .ok⟩, ⟨.update [0] [⟨"field0", [9]⟩], .ok .ok⟩,
          ⟨.read [0] none, .error (.raised (.corruptRow (.fieldCount [0] 1 2)))⟩] := by
  refine ⟨connectAll_twoFields_merging, rfl, by decide, ?_, ?_⟩ <;> with_unfolding_all rfl

end Adapter

end StoreBench
