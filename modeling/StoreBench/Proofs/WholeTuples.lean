import StoreBench.Proofs.Crew
import StoreBench.Proofs.LayoutLaws
import StoreBench.Proofs.Unanswered
/-!
# Whole tuples

Operations over tuples store nothing but tuples of their layout, the key in front and a value for
every field, and so they are shown nothing else. Then no stored tuple is ever found corrupt and none
is refused by the engine: what an operation can be refused for is a name outside the schema, or
bounds that do not pair up. This is so whatever calls of others come in between.
-/

namespace StoreBench

/-! ## What operations use and show -/

namespace Operation

/-- The names of the fields an operation is about. -/
def names : Operation → List String
  | read _ fields => fields.getD []
  | scan _ _ fields => fields.getD []
  | update _ updates => updates.names
  | insert _ row => row.names
  | delete _ => []
  | filter low _ fields => low.names ++ fields.getD []

/-- Where fields are not selected, rows are shown with all of them. -/
def ShowsAll (names : List String) : (op : Operation) → op.Result → Prop
  | .read _ none, found => ∀ row, found = some row → row.names = names
  | .scan _ _ none, rows => ∀ row ∈ rows, row.names = names
  | .filter _ _ none, rows => ∀ row ∈ rows, row.names = names
  | _, _ => True

end Operation

/-- The errors that an operation over tuples of a layout is refused with: a field it is about is not
in the schema, or its bounds are not equally many, or two of them at one place name two fields. -/
inductive ColumnLayout.Refuses (layout : ColumnLayout) (op : Operation) : Error → Prop
  | unknownField {name : String} : name ∈ op.names → name ∉ layout.schema →
      Refuses layout op (.unknownField name)
  | boundCounts {low high : Row} {fields : Selection} : op = .filter low high fields →
      low.length ≠ high.length →
      Refuses layout op (.invalidArgument (.boundCounts low.length high.length))
  | boundNames {low high : Row} {fields : Selection} {i : Nat} {lo hi : Field} :
      op = .filter low high fields → low[i]? = some lo → high[i]? = some hi → lo.name ≠ hi.name →
      Refuses layout op (.invalidArgument (.boundNames lo.name hi.name))

/-- Why an operation over tuples of a layout has no result. -/
def ColumnLayout.Hinders [Machine] (layout : ColumnLayout) (op : Operation) (failure : Failure) :
    Prop :=
  (∃ e, failure = .raised e ∧ layout.Refuses op e) ∨ layout.LacksRoom op failure

theorem Predicate.pair?_eq_error {low high : Row} {cause : BadArgument}
    (h : pair? low high = .error cause) : ∃ (i : Nat) (lo hi : Field),
      low[i]? = some lo ∧ high[i]? = some hi ∧ lo.name ≠ hi.name ∧
        cause = .boundNames lo.name hi.name := by
  induction low generalizing high with
  | nil => cases h
  | cons lo low ih =>
    cases high with
    | nil => cases h
    | cons hi high =>
      rw [pair?] at h
      by_cases hname : lo.name = hi.name
      · rw [if_pos hname] at h
        cases hpairs : pair? low high with
        | ok rest =>
          rw [hpairs] at h
          cases h
        | error cause' =>
          rw [hpairs] at h
          cases h
          obtain ⟨i, lo', hi', hlo, hhi, hne, rfl⟩ := ih hpairs
          exact ⟨i + 1, lo', hi', hlo, hhi, hne, rfl⟩
      · rw [if_neg hname] at h
        cases h
        exact ⟨0, lo, hi, rfl, rfl, hname, rfl⟩

namespace ColumnLayout

variable {layout : ColumnLayout}

theorem refuses_of_ofBounds? {low high : Row} {fields : Selection} {cause : BadArgument}
    (h : Predicate.ofBounds? low high = .error cause) :
    layout.Refuses (.filter low high fields) (.invalidArgument cause) := by
  rw [Predicate.ofBounds?] at h
  by_cases hlength : low.length = high.length
  · rw [if_pos hlength] at h
    obtain ⟨i, lo, hi, hlo, hhi, hne, rfl⟩ := Predicate.pair?_eq_error h
    exact .boundNames rfl hlo hhi hne
  · rw [if_neg hlength] at h
    cases h
    exact .boundCounts rfl hlength

/-! ## Rows and slots -/

/-- Writing stops at a name outside the schema only. -/
theorem not_mem_schema_of_write {slots written : Slots} {fields : Row} {name : String}
    (h : layout.write slots fields = (written, some name)) :
    name ∈ fields.names ∧ name ∉ layout.schema := by
  induction fields generalizing slots with
  | nil => cases h
  | cons f fields ih =>
    rw [write_cons] at h
    cases hslot : layout.slotOf? f.name with
    | error e =>
      rw [hslot] at h
      cases h
      rw [eq_unknownField_of_slotOf? hslot] at hslot
      exact ⟨List.mem_cons_self, slotOf?_eq_unknownField_iff.1 hslot⟩
    | ok slot =>
      rw [hslot] at h
      obtain ⟨hname, hunknown⟩ := ih h
      exact ⟨List.mem_cons_of_mem _ hname, hunknown⟩

/-- In a tuple of the layout a slot fails to be found for an unknown name only. -/
theorem eq_unknownField_of_slotValue? {slots : Slots}
    (hlength : slots.length = layout.fieldCount + 1) {name : String} {failure : Failure}
    (h : layout.slotValue? slots name = .error failure) :
    failure = .raised (.unknownField name) ∧ name ∉ layout.schema := by
  unfold slotValue? at h
  split at h
  · next e hslot =>
    cases h
    obtain rfl := eq_unknownField_of_slotOf? hslot
    exact ⟨rfl, slotOf?_eq_unknownField_iff.1 hslot⟩
  · next slot hslot =>
    have hlt : slot < slots.length := hlength ▸ Nat.lt_succ_of_le (le_of_slotOf? hslot)
    rw [List.getElem?_eq_getElem hlt] at h
    cases h

theorem eq_replicate_of_emptySlots? [Machine] {given : Nat} {slots : Slots}
    (h : layout.emptySlots? given = .ok slots) :
    slots = List.replicate (layout.fieldCount + 1) [] := by
  unfold emptySlots? at h
  obtain ⟨count, hcount, h⟩ := bind_eq_ok_iff.1 h
  obtain ⟨rfl, -⟩ := eq_of_slotCount? hcount
  split at h
  · obtain ⟨_, -, h⟩ := bind_eq_ok_iff.1 h
    cases h
    rfl
  · cases h
    rfl

theorem lacksRoom_of_emptySlots? [Machine] (hfits : layout.fieldCount + 1 < UInt64.size)
    (key : Bytes)
    {row : Row} {failure : Failure} (h : layout.emptySlots? row.length = .error failure) :
    layout.LacksRoom (.insert key row) failure := by
  rcases emptySlots?_eq_error_iff.1 h with hcount | ⟨-, hgiven, hreserve⟩
  · rw [slotCount?, if_pos hfits] at hcount
    cases hcount
  · exact ⟨key, row, rfl, hgiven, hreserve⟩

variable {ι : Interface} {κ : Type} {P : Protocol ι κ} {k : κ} {fails : Failure → Prop}
  {key : Bytes} {slots : Slots} (hfits : layout.fieldCount + 1 < UInt64.size)

include hfits

/-- Slots as many as the layout has pass the check. -/
theorem follows_check_whole (hlength : slots.length = layout.fieldCount + 1) :
    (layout.check slots : Attempt ι Unit).Follows P fails (fun _ _ => True) k := by
  have hcount : layout.slotCount? = .ok (layout.fieldCount + 1) := if_pos hfits
  rw [check, hcount, Attempt.follows_bind, Attempt.follows_ofExcept]
  constructor
  · rintro _ ⟨⟩
    rw [if_neg (not_not_intro hlength)]
    trivial
  · rintro _ ⟨⟩

/-- Overwriting fields makes another tuple under the same key, unless one of them is unknown. -/
theorem follows_overlaid_whole (hslots : layout.Shapes key slots) {fields : Row}
    (hunknown : ∀ name ∈ fields.names, name ∉ layout.schema →
      fails (.raised (.unknownField name))) :
    (layout.overlaid slots fields : Attempt ι Slots).Follows P fails
      (fun _ written => layout.Shapes key written) k := by
  rw [overlaid, Attempt.follows_bind, Attempt.follows_lift, overlay, Program.follows_bind]
  have hcheck : (layout.check slots : Attempt ι Unit).Follows P (fun _ => False)
      (fun _ _ => True) k :=
    follows_check_whole hfits hslots.1
  refine Program.Follows.imp hcheck ?_
  intro k result hresult
  cases result with
  | error failure => exact hresult.elim
  | ok done =>
    have hlength := layout.length_write slots fields
    have hhead := layout.head?_write slots fields
    rcases hwrite : layout.write slots fields with ⟨written, _ | name⟩
    · rw [hwrite] at hlength hhead
      exact ⟨hlength.trans hslots.1, hhead.trans hslots.2⟩
    · obtain ⟨hname, hschema⟩ := not_mem_schema_of_write hwrite
      exact hunknown name hname hschema

/-- Laying fields out makes a tuple, unless one of them is unknown or there is no room. -/
theorem follows_encode_whole [Machine] {fields : Row}
    (hunknown : ∀ name ∈ fields.names, name ∉ layout.schema →
      fails (.raised (.unknownField name)))
    (hroom : ∀ failure, layout.emptySlots? fields.length = .error failure → fails failure) :
    (layout.encode key fields : Attempt ι Slots).Follows P fails
      (fun _ laid => layout.Shapes key laid) k := by
  rw [encode, Attempt.follows_bind, Attempt.follows_click, Attempt.follows_bind,
    Attempt.follows_ofExcept]
  refine ⟨?_, hroom⟩
  intro slots hslots
  obtain rfl := eq_replicate_of_emptySlots? hslots
  refine follows_overlaid_whole hfits ⟨?_, rfl⟩ hunknown
  rw [List.length_set, List.length_replicate]

end ColumnLayout

/-! ## Calls -/

/-- Of tuples of a layout a call shows such tuples only. -/
def TupleCall.Shows (layout : ColumnLayout) : (call : TupleCall) → call.Result → Prop
  | get key, found => ∀ held, found = some held → layout.Shapes key held
  | visit _, tuples => ∀ held ∈ tuples, held.length = layout.fieldCount + 1
  | put .., _ => True
  | delete _, _ => True

/-- Calls of an engine of tuples of a layout: no other tuples are stored, so that none is refused,
and no others are shown. -/
def wholeTuples (layout : ColumnLayout) : Protocol tupleCalls Unit where
  allows _ call := ∀ key slots, call = .put key slots → layout.Shapes key slots
  expects _ call answer := ∃ value, answer = .ok value ∧ call.Shows layout value
  next _ _ _ := ()

/-- An engine of whole tuples answers as it is expected to. -/
theorem TupleEngine.ShapedBy.answers {e : TupleEngine} {layout : ColumnLayout}
    (h : e.ShapedBy layout) {call : TupleCall}
    (hcall : (wholeTuples layout).allows () call) :
    (wholeTuples layout).expects () call (e.serve call).1 := by
  cases call with
  | get key =>
    rw [← run_attempt, run_get h.isOpen]
    exact ⟨_, rfl, h.shapes key⟩
  | delete key =>
    rw [← run_attempt, run_delete h.isOpen]
    exact ⟨(), rfl, trivial⟩
  | visit start =>
    rw [← run_attempt, run_visit h.isOpen]
    refine ⟨_, rfl, ?_⟩
    intro held hheld
    obtain ⟨x, hx, rfl⟩ := List.mem_map.1 hheld
    exact (h.shapes_of_mem ((List.dropWhile_sublist _).subset hx)).1
  | put key slots =>
    obtain ⟨hlength, hhead⟩ := hcall key slots rfl
    have haccepts := accepts_eq_ok_iff.2 ⟨hlength.trans h.width_eq.symm, hhead⟩
    rw [← run_attempt, run_put h.isOpen haccepts]
    exact ⟨(), rfl, trivial⟩

variable {layout : ColumnLayout} {fails : Failure → Prop}

/-- A call and what comes after it. -/
theorem follows_whole_call {α : Type} {ends : Unit → α → Prop} {call : TupleCall}
    {rest : call.Result → Attempt tupleCalls α}
    (hcall : (wholeTuples layout).allows () call)
    (hrest : ∀ value, call.Shows layout value →
      (rest value).Follows (wholeTuples layout) fails ends ()) :
    (call.attempt >>= rest).Follows (wholeTuples layout) fails ends () := by
  refine Attempt.follows_bind.2 ⟨hcall, ?_⟩
  rintro _ ⟨value, rfl, hshows⟩
  exact hrest value hshows

namespace ColumnarFormat

variable {f : ColumnarFormat} (hfits : f.layout.fieldCount + 1 < UInt64.size)

include hfits

/-- A whole tuple is shown with all fields or with the ones selected, which have to be known. -/
theorem follows_decodeStored_whole {ι : Interface} {κ : Type} {P : Protocol ι κ} {k : κ}
    {slots : Slots} (hlength : slots.length = f.layout.fieldCount + 1) (fields : Selection)
    (hunknown : ∀ name ∈ fields.getD [], name ∉ f.layout.schema →
      fails (.raised (.unknownField name))) :
    (f.decodeStored slots fields : Attempt ι Row).Follows P fails
      (fun _ row => fields = none → row.names = f.layout.schema) k := by
  have hcheck : (f.layout.check slots : Attempt ι Unit).Follows P fails (fun _ _ => True) k :=
    ColumnLayout.follows_check_whole hfits hlength
  cases fields with
  | none =>
    rw [decodeStored, ColumnLayout.decode, Attempt.follows_bind, Attempt.follows_click,
      Attempt.follows_bind]
    refine hcheck.imp ?_
    intro _ _ _ _
    exact ColumnLayout.names_row hlength
  | some wanted =>
    rw [decodeStored, ColumnLayout.select, Attempt.follows_bind, Attempt.follows_click,
      Attempt.follows_bind]
    refine hcheck.imp ?_
    intro _ _ _
    refine Attempt.follows_ofExcept.2 ⟨by rintro _ _ ⟨⟩, ?_⟩
    intro failure hfailure
    obtain ⟨name, hname, hmissing⟩ := exists_error_of_mapM hfailure
    cases hvalue : f.layout.slotValue? slots name with
    | ok value => simp [hvalue] at hmissing
    | error failure' =>
      rw [hvalue] at hmissing
      cases hmissing
      obtain ⟨rfl, hschema⟩ := ColumnLayout.eq_unknownField_of_slotValue? hlength hvalue
      exact hunknown name hname hschema

theorem follows_match?_whole {κ : Type} {P : Protocol tupleCalls κ} {k : κ} {slots : Slots}
    (hlength : slots.length = f.layout.fieldCount + 1) (predicate : Predicate)
    (positions : List Nat) (fields : Selection)
    (hunknown : ∀ name ∈ fields.getD [], name ∉ f.layout.schema →
      fails (.raised (.unknownField name))) :
    (f.match? predicate positions fields slots).Follows P fails
      (fun _ shown => ∀ row, shown = some row → fields = none → row.names = f.layout.schema) k := by
  rw [match?]
  split
  · rw [Attempt.follows_bind]
    refine (follows_decodeStored_whole hfits hlength fields hunknown).imp ?_
    rintro _ row hrow _ ⟨⟩
    exact hrow
  · rintro _ ⟨⟩

omit hfits in
/-- What is laid out is stored. -/
theorem follows_store_whole {p : Attempt tupleCalls Slots} {key : Bytes} {ends : Status → Prop}
    (hp : p.Follows (wholeTuples f.layout) fails (fun _ slots => f.layout.Shapes key slots) ())
    (hends : ends .ok) :
    (p >>= fun slots => (TupleCall.put key slots).attempt >>= fun _ => pure Status.ok).Follows
      (wholeTuples f.layout) fails (fun _ status => ends status) () := by
  refine Attempt.follows_bind.2 (hp.imp ?_)
  intro _ slots hslots
  refine follows_whole_call ?_ fun _ _ => hends
  rintro _ _ ⟨⟩
  exact hslots

/-- Whatever an operation is asked for, it stores whole tuples only and is hindered for a stated
reason only. -/
theorem follows_perform_whole [Machine] (op : Operation) :
    (f.perform op).Follows (wholeTuples f.layout) (f.layout.Hinders op)
      (fun _ result => op.ShowsAll f.layout.schema result) () := by
  have hunknown : ∀ name ∈ op.names, name ∉ f.layout.schema →
      f.layout.Hinders op (.raised (.unknownField name)) := by
    intro name hname hschema
    exact .inl ⟨_, rfl, .unknownField hname hschema⟩
  cases op with
  | read key fields =>
    refine follows_whole_call (by rintro _ _ ⟨⟩) ?_
    intro found hfound
    cases found with
    | none => cases fields <;> simp [Operation.ShowsAll]
    | some slots =>
      refine Attempt.follows_bind.2 ?_
      refine (follows_decodeStored_whole hfits (hfound slots rfl).1 fields hunknown).imp ?_
      intro _ row hrow
      cases fields with
      | some wanted => trivial
      | none =>
        rintro _ ⟨⟩
        exact hrow rfl
  | scan start count fields =>
    rw [perform, scan, TupleCall.scan]
    by_cases hzero : count = 0
    · cases fields <;> simp [hzero, Operation.ShowsAll]
    · rw [if_neg hzero, bind_assoc]
      refine follows_whole_call (by rintro _ _ ⟨⟩) ?_
      intro tuples htuples
      refine (Attempt.follows_mapM_all
        (fun row : Row => fields = none → row.names = f.layout.schema) ?_ ()).imp ?_
      · intro slots hslots k
        have hlength := htuples slots (List.mem_of_mem_take hslots)
        exact follows_decodeStored_whole hfits hlength fields hunknown
      · intro _ rows hrows
        cases fields with
        | some wanted => trivial
        | none => exact fun row hrow => hrows row hrow rfl
  | update key updates =>
    refine follows_whole_call (by rintro _ _ ⟨⟩) ?_
    intro found hfound
    cases found with
    | none => trivial
    | some slots =>
      refine follows_store_whole ?_ trivial
      exact ColumnLayout.follows_overlaid_whole hfits (hfound slots rfl) hunknown
  | insert key row =>
    refine follows_store_whole ?_ trivial
    refine ColumnLayout.follows_encode_whole hfits hunknown ?_
    intro failure hfailure
    exact .inr (ColumnLayout.lacksRoom_of_emptySlots? hfits key hfailure)
  | delete key => exact follows_whole_call (by rintro _ _ ⟨⟩) fun _ _ => trivial
  | filter low high fields =>
    rw [perform, filter, Attempt.follows_bind, Attempt.follows_ofExcept]
    constructor
    · intro predicate hpredicate
      rw [mapError_eq_ok_iff] at hpredicate
      rw [Attempt.follows_bind, Attempt.follows_ofExcept]
      constructor
      · intro positions _
        refine follows_whole_call (by rintro _ _ ⟨⟩) ?_
        intro tuples htuples
        refine (Attempt.follows_filterMapM_all
          (fun row : Row => fields = none → row.names = f.layout.schema) ?_ ()).imp ?_
        · intro slots hslots k
          refine follows_match?_whole hfits (htuples slots hslots) predicate positions fields ?_
          intro name hname
          exact hunknown name (List.mem_append_right _ hname)
        · intro _ rows hrows
          cases fields with
          | some wanted => trivial
          | none => exact fun row hrow => hrows row hrow rfl
      · intro failure hfailure
        cases hpositions : predicate.names.mapM f.layout.slotOf? with
        | ok positions => simp [hpositions, mapError_ok] at hfailure
        | error e =>
          rw [hpositions, mapError_error] at hfailure
          cases hfailure
          obtain ⟨name, hname, hslot⟩ := exists_error_of_mapM hpositions
          obtain rfl := ColumnLayout.eq_unknownField_of_slotOf? hslot
          rw [Predicate.names_of_ofBounds? hpredicate] at hname
          exact hunknown name (List.mem_append_left _ hname)
            (ColumnLayout.slotOf?_eq_unknownField_iff.1 hslot)
    · intro failure hfailure
      cases hpredicate : Predicate.ofBounds? low high with
      | ok predicate => simp [hpredicate, mapError_ok] at hfailure
      | error cause =>
        rw [hpredicate, mapError_error] at hfailure
        cases hfailure
        exact .inl ⟨_, rfl, ColumnLayout.refuses_of_ofBounds? hpredicate⟩

end ColumnarFormat

/-! ## Engines and their clients -/

/-- What comes of an operation over tuples of a layout. -/
structure ColumnLayout.Answers [Machine] (layout : ColumnLayout) (op : Operation)
    (outcome : Except Failure op.Result) : Prop where
  shows : ∀ result, outcome = .ok result → op.ShowsAll layout.schema result
  hinders : ∀ failure, outcome = .error failure → layout.Hinders op failure

theorem ColumnLayout.Answers.refuses [Machine] {op : Operation} {outcome : Except Failure op.Result}
    (h : layout.Answers op outcome) {e : Error} (hraised : outcome = .error (.raised e)) :
    layout.Refuses op e := by
  rcases h.hinders _ hraised with ⟨_, ⟨⟩, hrefuses⟩ | ⟨_, _, -, -, hreserve⟩
  · exact hrefuses
  · rcases reserve_eq_error_iff.1 hreserve with ⟨⟨⟩, -⟩ | ⟨⟨⟩, -⟩

/-- An operation that is about no field but known ones, and that neither inserts nor has bounds, has
a result. -/
theorem ColumnLayout.Answers.exists_ok [Machine] {op : Operation}
    {outcome : Except Failure op.Result} (h : layout.Answers op outcome)
    (hknown : ∀ name ∈ op.names, name ∈ layout.schema) (hinsert : op.kind ≠ .insert)
    (hfilter : op.kind ≠ .filter) :
    ∃ result, outcome = .ok result := by
  cases houtcome : outcome with
  | ok result => exact ⟨result, rfl⟩
  | error failure =>
    rcases h.hinders failure houtcome with ⟨e, -, hrefuses⟩ | ⟨key, row, rfl, -⟩
    · cases hrefuses with
      | unknownField hname hschema => exact absurd (hknown _ hname) hschema
      | boundCounts hop => exact absurd (hop ▸ rfl) hfilter
      | boundNames hop => exact absurd (hop ▸ rfl) hfilter
    · exact absurd rfl hinsert

namespace ColumnarFormat

variable {f : ColumnarFormat} {e : TupleEngine}

/-- The calls of an operation, and then the operation with what came of it. -/
def calls [Machine] (f : ColumnarFormat) (op : Operation) : Program tupleCalls Exchange := do
  return ⟨op, ← (f.perform op).run⟩

variable (hfits : f.layout.fieldCount + 1 < UInt64.size)

include hfits

theorem follows_calls_whole [Machine] (op : Operation) (k : Unit) :
    (f.calls op).Follows (wholeTuples f.layout) (fun _ x => f.layout.Answers x.op x.answer) k := by
  refine Program.follows_bind.2 (Program.Follows.imp (follows_perform_whole hfits op) ?_)
  intro _ result hresult
  cases result with
  | ok result =>
    refine ⟨?_, nofun⟩
    rintro _ ⟨⟩
    exact hresult
  | error failure =>
    refine ⟨nofun, ?_⟩
    rintro _ ⟨⟩
    exact hresult

/-- An operation on an engine of whole tuples is answered as told. -/
theorem answers_perform [Machine] (h : e.ShapedBy f.layout) (op : Operation) :
    f.layout.Answers op (e.run (f.perform op)).1 := by
  obtain ⟨_, hanswers, -⟩ := Program.evaluate_follows (ι := tupleCalls)
    (I := fun (_ : Unit) (s : TupleEngine) => s.ShapedBy f.layout) TupleEngine.serve
    (fun _ call s hcall hs => ⟨hs.answers hcall, hs.serve call⟩) (follows_calls_whole hfits op ()) h
  rw [calls, Program.evaluate_bind] at hanswers
  exact hanswers

/-- Clients of an engine of whole tuples whose calls are served in any order: the tuples stay whole,
and every operation is answered as told. -/
theorem crew_whole [Machine] (h : e.ShapedBy f.layout) {n : Nat}
    (histories : Fin n → List Operation) (schedule : List (Fin n)) :
    let c := (Crew.start (fun i => (histories i).mapM f.calls) e).run
      (fun _ => TupleEngine.serve) schedule
    c.shared.ShapedBy f.layout ∧ ∀ i exchanges, (c.members i).result? = some exchanges →
      ∀ x ∈ exchanges, f.layout.Answers x.op x.answer := by
  intro c
  have hmembers : ∀ i k, ((histories i).mapM f.calls).Follows (wholeTuples f.layout)
      (fun _ xs => ∀ x ∈ xs, f.layout.Answers x.op x.answer) k := by
    intro i k
    exact Program.follows_mapM (fun op _ k => follows_calls_whole hfits op k) k
  have hconforms : c.Conforms (wholeTuples f.layout)
      (fun _ _ xs => ∀ x ∈ xs, f.layout.Answers x.op x.answer)
      (fun _ crew => crew.shared.ShapedBy f.layout) := by
    refine Crew.run_preserves ?_ ⟨fun _ => (), fun i => hmembers i (), h⟩ schedule
    intro crew i hcrew
    refine hcrew.turn ?_
    intro known call rest _ hshaped hpending hallows
    refine ⟨hshaped.answers hallows, ?_⟩
    rw [Crew.turn_of_pending_inr hpending]
    exact hshaped.serve call
  obtain ⟨known, hfollows, hshaped⟩ := hconforms
  refine ⟨hshaped, ?_⟩
  intro i exchanges hresult
  exact (hfollows i).of_pending_inl (Program.pending_eq_inl_iff.2 hresult)

end ColumnarFormat

end StoreBench
