import StoreBench.Proofs.Calls
import StoreBench.Proofs.History
/-!
# Serving engines

An engine serves its calls when it is open and, if rows are merged in it, knows how. Whatever
operation an adapter performs on such an engine, the engine still serves afterwards, nothing else in
the registry has changed but the journal, and a failure is about rows and arguments: no operation
meets a closed engine.
-/

namespace StoreBench

namespace Engine

def kind : Engine → EngineKind
  | keyValue _ => .keyValue
  | tuple _ => .tuple

def isOpen : Engine → Bool
  | keyValue e => !e.closed
  | tuple e => !e.closed

/-- The engine is open, and merges rows if it merges. -/
def Serves : Engine → Prop
  | keyValue e => e.closed = false ∧ e.mergeOperator = some Row.mergeEncoded
  | tuple e => e.closed = false

theorem Serves.isOpen {engine : Engine} (h : engine.Serves) : engine.isOpen = true := by
  cases engine with
  | keyValue e => simp [Engine.isOpen, h.1]
  | tuple e =>
    have hopen : e.closed = false := h
    simp [Engine.isOpen, hopen]

end Engine

/-- A failure that is about rows and arguments, or has no reason given. -/
def Failure.OverRows : Failure → Prop
  | .raised (.configuration _) | .raised (.engine _) => False
  | .raised (.corruptRow _) | .raised (.unknownField _) | .raised (.invalidArgument _) => True
  | .fault | .exhausted => True

/-- A refusal of rows or arguments. -/
def Failure.RefusesRows : Failure → Prop
  | .raised (.corruptRow _) | .raised (.unknownField _) | .raised (.invalidArgument _) => True
  | _ => False

theorem Failure.RefusesRows.overRows {failure : Failure} (h : failure.RefusesRows) :
    failure.OverRows := by
  rcases failure with (_ | _ | _ | _ | _) | _ | _ <;> first | exact h | trivial

/-- Calls that may fail. -/
abbrev fallible (R : Type) (A : R → Type) : Interface := ⟨R, fun r => Except Failure (A r)⟩

/-- Calls of a sort that fail as told at most. -/
def failing (R : Type) (A : R → Type) (sort : R → Prop) (fails : Failure → Prop) :
    Protocol (fallible R A) Unit where
  allows _ call := sort call
  expects _ _ answer := ∀ failure, answer = .error failure → fails failure
  next _ _ _ := ()

/-- A call and what comes after it. -/
theorem follows_call {R : Type} {A : R → Type} {sort : R → Prop} {fails : Failure → Prop}
    {α : Type} {call : R} {rest : A call → Attempt (fallible R A) α} {k : Unit} (hcall : sort call)
    (hrest : ∀ a, (rest a).Follows (failing R A sort fails) fails (fun _ _ => True) ()) :
    Attempt.Follows (failing R A sort fails) fails (fun _ _ => True) k
      ((ExceptT.mk (Program.call (ι := fallible R A) call) : Attempt (fallible R A) (A call)) >>=
        rest) := by
  refine Attempt.follows_bind.2 ⟨hcall, fun answer hanswer => ?_⟩
  cases answer with
  | error failure => exact hanswer failure rfl
  | ok a => exact hrest a

/-- Calls to key-value engines that fail as told at most. -/
abbrev failingKeyValue : (fails : Failure → Prop) → Protocol keyValueCalls Unit :=
  failing KeyValueCall KeyValueCall.Result fun _ => True

/-- A tuple that is to be stored has slots. -/
def TupleCall.HasSlots : TupleCall → Prop
  | put _ slots => slots ≠ []
  | _ => True

/-- Calls to tuple engines that fail as told at most, storing no tuple without slots. -/
abbrev failingTuple : (fails : Failure → Prop) → Protocol tupleCalls Unit :=
  failing TupleCall TupleCall.Result TupleCall.HasSlots

/-! ## What formats fail with -/

theorem exists_error_of_mapM {α β ε : Type} {f : α → Except ε β} {xs : List α} {e : ε}
    (h : xs.mapM f = .error e) : ∃ x ∈ xs, f x = .error e := by
  induction xs with
  | nil => cases h
  | cons x xs ih =>
    rw [List.mapM_cons] at h
    cases hx : f x with
    | error e' =>
      rw [hx] at h
      cases h
      exact ⟨x, List.mem_cons_self, hx⟩
    | ok b =>
      cases hxs : xs.mapM f with
      | error e' =>
        rw [hx, hxs] at h
        cases h
        obtain ⟨y, hy, hfail⟩ := ih hxs
        exact ⟨y, List.mem_cons_of_mem x hy, hfail⟩
      | ok bs => rw [hx, hxs] at h; cases h

namespace SchemalessFormat

variable {f : SchemalessFormat} {P : Protocol keyValueCalls Unit} {k : Unit}
  {fails : Failure → Prop} (hrows : ∀ failure, failure.RefusesRows → fails failure)

include hrows

theorem reads_failing : f.Reads (failingKeyValue fails) fails fun _ => True where
  allows_get _ _ := trivial
  allows_visit _ _ := trivial
  allows_delete _ _ := trivial
  got _ _ _ _ := trivial
  visited _ _ _ _ _ _ := trivial
  fails_get _ _ failure h := h failure rfl
  fails_visit _ _ failure h := h failure rfl
  fails_delete _ _ failure h := h failure rfl
  fails_bounds _ := hrows _ trivial
  shows k key value fields _ := by
    cases fields with
    | some wanted =>
      rw [decodeStored, Attempt.follows_ofProgram, Row.follows_select]
      cases Row.select? wanted value with
      | error cause => exact hrows _ trivial
      | ok row => trivial
    | none =>
      rw [decodeStored, Attempt.follows_bind, Attempt.follows_ofProgram, Row.follows_decode]
      cases Row.decode? value with
      | error cause => exact hrows _ trivial
      | ok row =>
        by_cases hlength : row.length = f.fieldCount
        · simp [mapError_ok, hlength]
        · simp only [mapError_ok, ne_eq, hlength, not_false_eq_true, if_true]
          exact hrows _ trivial

/-- What is encoded and then handed to a call. -/
theorem follows_encode {row : Row} {rest : Bytes → Attempt keyValueCalls Status}
    (hrest : ∀ value, (rest value).Follows P fails (fun _ _ => True) k) :
    (Attempt.ofProgram (Row.encode row) >>= rest).Follows P fails (fun _ _ => True) k := by
  rw [Attempt.follows_bind, Attempt.follows_ofProgram, Row.follows_encode]
  cases row.encode? with
  | error cause => exact hrows _ trivial
  | ok value => exact hrest value

/-- Where calls fail as told, and rows may be refused, an operation fails as told. -/
theorem follows_perform_failing (op : Operation) :
    (f.perform op).Follows (failingKeyValue fails) fails (fun _ _ => True) () := by
  cases op with
  | insert key row =>
    exact follows_encode hrows fun value => follows_call trivial fun _ => trivial
  | update key updates =>
    rw [perform, update]
    split
    · refine follows_call trivial fun found => ?_
      cases found with
      | none => trivial
      | some value =>
        exact follows_encode hrows fun operand => follows_call trivial fun _ => trivial
    · refine follows_call trivial fun found => ?_
      cases found with
      | none => trivial
      | some value =>
        refine Attempt.follows_bind.2 (Attempt.follows_ofProgram.2 (Row.follows_decode.2 ?_))
        cases Row.decode? value with
        | error cause => exact hrows _ trivial
        | ok row =>
          refine Attempt.follows_bind.2 ?_
          rw [Row.overlay?_eq]
          cases row.firstUnknown? updates with
          | some u => exact hrows _ trivial
          | none => exact follows_encode hrows fun value => follows_call trivial fun _ => trivial
  | _ =>
    exact (reads_failing hrows).follows_perform (by simp [Operation.kind])
      (by simp [Operation.kind])

end SchemalessFormat

namespace ColumnLayout

variable {ι : Interface} {κ : Type} {P : Protocol ι κ} {k : κ} {layout : ColumnLayout}

theorem eq_of_slotCount? {count : Nat} (h : layout.slotCount? = .ok count) :
    count = layout.fieldCount + 1 ∧ layout.fieldCount + 1 < UInt64.size := by
  unfold slotCount? at h
  split at h
  · next hfits =>
    cases h
    exact ⟨rfl, hfits⟩
  · cases h

theorem overRows_of_slotCount? {failure : Failure} (h : layout.slotCount? = .error failure) :
    failure.OverRows := by
  unfold slotCount? at h
  split at h
  · cases h
  · cases h
    trivial

theorem overRows_of_reserve [Machine] {count size : Nat} {failure : Failure}
    (h : (reserve count size : Except Failure Unit) = .error failure) : failure.OverRows := by
  rcases reserve_eq_error_iff.1 h with ⟨rfl, -⟩ | ⟨rfl, -⟩ <;> trivial

/-- Slots cannot be laid out if they cannot be counted or not be held. -/
theorem emptySlots?_eq_error_iff [Machine] {given : Nat} {failure : Failure} :
    layout.emptySlots? given = .error failure ↔ layout.slotCount? = .error failure ∨
      layout.fieldCount + 1 < UInt64.size ∧ given < layout.fieldCount ∧
        reserve (layout.fieldCount + 1) slotSize = .error failure := by
  unfold emptySlots?
  cases hcount : layout.slotCount? with
  | error failure' =>
    have hfits : ¬ layout.fieldCount + 1 < UInt64.size := fun hfits => by
      simp [slotCount?, hfits] at hcount
    simp [bind, Except.bind, hfits]
  | ok count =>
    obtain ⟨rfl, hfits⟩ := eq_of_slotCount? hcount
    simp only [bind, Except.bind, hfits, true_and, reduceCtorEq, false_or]
    by_cases hgiven : given < layout.fieldCount
    · simp only [hgiven, if_true, true_and]
      cases reserve (ε := Error) (layout.fieldCount + 1) slotSize <;> simp [pure, Except.pure]
    · simp [hgiven, pure, Except.pure]

theorem overRows_of_emptySlots? [Machine] {given : Nat} {failure : Failure}
    (h : layout.emptySlots? given = .error failure) : failure.OverRows := by
  rcases emptySlots?_eq_error_iff.1 h with hcount | ⟨-, -, hreserve⟩
  · exact overRows_of_slotCount? hcount
  · exact overRows_of_reserve hreserve

@[simp] theorem length_write (slots : Slots) (fields : Row) :
    (layout.write slots fields).1.length = slots.length := by
  induction fields generalizing slots with
  | nil => rfl
  | cons f fields ih =>
    rw [write_cons]
    cases layout.slotOf? f.name with
    | error e => rfl
    | ok slot => exact (ih _).trans List.length_set

theorem eq_unknownField_of_slotOf? {name : String} {e : Error}
    (h : layout.slotOf? name = .error e) : e = .unknownField name := by
  simp only [slotOf?] at h
  split at h
  · split at h
    · split at h <;> cases h
      rfl
    · cases h
      rfl
  · cases h
    rfl

theorem le_of_slotOf? {name : String} {slot : Nat} (h : layout.slotOf? name = .ok slot) :
    slot ≤ layout.fieldCount := by
  simp only [slotOf?] at h
  split at h
  · split at h
    · split at h
      · next hlt =>
        cases h
        exact hlt
      · cases h
    · cases h
  · cases h

/-- The contents of a slot fail to be found for an unknown name only. -/
theorem refusesRows_of_slotValue? {slots : Slots} (hlength : slots.length = layout.fieldCount + 1)
    {name : String} {failure : Failure} (h : layout.slotValue? slots name = .error failure) :
    failure.RefusesRows := by
  unfold slotValue? at h
  split at h
  · next e hslot =>
    cases h
    rw [eq_unknownField_of_slotOf? hslot]
    trivial
  · next slot hslot =>
    have hlt : slot < slots.length := hlength ▸ Nat.lt_succ_of_le (le_of_slotOf? hslot)
    rw [List.getElem?_eq_getElem hlt] at h
    cases h

/-! ### Programs over layouts -/

variable {fails : Failure → Prop} (hrows : ∀ failure, failure.RefusesRows → fails failure)
  (hcount : ∀ failure, layout.slotCount? = .error failure → fails failure)

include hrows hcount

/-- Slots that pass the check are as many as the layout has. -/
theorem follows_check {slots : Slots} :
    (layout.check slots : Attempt ι Unit).Follows P fails
      (fun _ _ => slots.length = layout.fieldCount + 1) k := by
  rw [check, Attempt.follows_bind, Attempt.follows_ofExcept]
  refine ⟨fun count hok => ?_, hcount⟩
  obtain ⟨rfl, -⟩ := eq_of_slotCount? hok
  split
  · exact hrows _ trivial
  · next hlength => exact Attempt.follows_pure.2 (Decidable.not_not.1 hlength)

theorem follows_overlay {slots : Slots} {fields : Row} :
    (layout.overlay slots fields : Program ι _).Follows P
      (fun _ result => (result.1 = .ok () → result.2.length = layout.fieldCount + 1) ∧
        ∀ failure, result.1 = .error failure → fails failure) k := by
  rw [overlay, Program.follows_bind]
  refine Program.Follows.imp (follows_check hrows hcount) fun k result hresult => ?_
  cases result with
  | error failure =>
    refine ⟨nofun, ?_⟩
    rintro _ ⟨⟩
    exact hresult
  | ok done =>
    have hlength := layout.length_write slots fields
    rcases hwrite : layout.write slots fields with ⟨written, _ | name⟩
    · rw [hwrite] at hlength
      exact ⟨fun _ => hlength.trans hresult, nofun⟩
    · refine ⟨nofun, ?_⟩
      rintro _ ⟨⟩
      exact hrows _ trivial

theorem follows_overlaid {slots : Slots} {fields : Row} :
    (layout.overlaid slots fields : Attempt ι Slots).Follows P fails
      (fun _ slots => slots.length = layout.fieldCount + 1) k := by
  rw [overlaid, Attempt.follows_bind, Attempt.follows_lift]
  refine (follows_overlay hrows hcount).imp fun k result hresult => ?_
  rw [Attempt.follows_bind, Attempt.follows_ofExcept]
  exact ⟨fun _ => hresult.1, hresult.2⟩

theorem follows_encode [Machine] {key : Bytes} {fields : Row}
    (hroom : ∀ failure, layout.emptySlots? fields.length = .error failure → fails failure) :
    (layout.encode key fields : Attempt ι Slots).Follows P fails
      (fun _ slots => slots.length = layout.fieldCount + 1) k := by
  rw [encode, Attempt.follows_bind, Attempt.follows_click, Attempt.follows_bind,
    Attempt.follows_ofExcept]
  exact ⟨fun _ _ => follows_overlaid hrows hcount, hroom⟩

theorem follows_decode {slots : Slots} :
    (layout.decode slots : Attempt ι Row).Follows P fails (fun _ _ => True) k := by
  rw [decode, Attempt.follows_bind, Attempt.follows_click, Attempt.follows_bind]
  exact (follows_check hrows hcount).imp fun _ _ _ => trivial

theorem follows_select {wanted : List String} {slots : Slots} :
    (layout.select wanted slots : Attempt ι Row).Follows P fails (fun _ _ => True) k := by
  rw [select, Attempt.follows_bind, Attempt.follows_click, Attempt.follows_bind]
  refine (follows_check hrows hcount).imp fun k _ hlength =>
    Attempt.follows_ofExcept.2 ⟨fun _ _ => trivial, ?_⟩
  intro failure hfailure
  obtain ⟨name, -, hname⟩ := exists_error_of_mapM hfailure
  cases hvalue : layout.slotValue? slots name with
  | error failure' =>
    rw [hvalue] at hname
    cases hname
    exact hrows _ (refusesRows_of_slotValue? hlength hvalue)
  | ok value => rw [hvalue] at hname; cases hname

end ColumnLayout

namespace ColumnarFormat

variable {f : ColumnarFormat} {fails : Failure → Prop}

/-- What the slots of an operation may fail with: slots that cannot be counted, and for an insert
also slots that cannot be laid out. -/
structure MayFail [Machine] (f : ColumnarFormat) (op : Operation) (fails : Failure → Prop) :
    Prop where
  count : ∀ failure, f.layout.slotCount? = .error failure → fails failure
  room : ∀ key row, op = .insert key row → ∀ failure,
    f.layout.emptySlots? row.length = .error failure → fails failure

theorem mayFail_overRows [Machine] (op : Operation) : f.MayFail op Failure.OverRows where
  count _ := ColumnLayout.overRows_of_slotCount?
  room _ _ _ _ := ColumnLayout.overRows_of_emptySlots?

/-- What is laid out in slots and then stored. -/
theorem follows_store {p : Attempt tupleCalls Slots} {key : Bytes}
    {rest : Unit → Attempt tupleCalls Status} {k : Unit}
    (hp : p.Follows (failingTuple fails) fails
      (fun _ slots => slots.length = f.layout.fieldCount + 1) k)
    (hrest : (rest ()).Follows (failingTuple fails) fails (fun _ _ => True) ()) :
    (p >>= fun slots => (TupleCall.put key slots).attempt >>= rest).Follows (failingTuple fails)
      fails (fun _ _ => True) k :=
  Attempt.follows_bind.2 (hp.imp fun _ _ hlength =>
    follows_call (List.ne_nil_of_length_eq_add_one hlength) fun _ => hrest)

variable (hrows : ∀ failure, failure.RefusesRows → fails failure)

include hrows

theorem follows_decodeStored {ι : Interface} {κ : Type} {P : Protocol ι κ} {k : κ}
    (hcount : ∀ failure, f.layout.slotCount? = .error failure → fails failure) {slots : Slots}
    (fields : Selection) :
    (f.decodeStored slots fields : Attempt ι Row).Follows P fails (fun _ _ => True) k := by
  cases fields with
  | some wanted => exact ColumnLayout.follows_select hrows hcount
  | none => exact ColumnLayout.follows_decode hrows hcount

theorem follows_match? {k : Unit}
    (hcount : ∀ failure, f.layout.slotCount? = .error failure → fails failure)
    (predicate : Predicate) (positions : List Nat) (fields : Selection) (slots : Slots) :
    (f.match? predicate positions fields slots).Follows (failingTuple fails) fails
      (fun _ _ => True) k := by
  rw [match?]
  split
  · rw [Attempt.follows_bind]
    exact (follows_decodeStored hrows hcount fields).imp fun _ _ _ => trivial
  · trivial

/-- Where calls fail as told, rows may be refused and slots not be had, an operation fails as
told. -/
theorem follows_perform_failing [Machine] {op : Operation} (hslots : f.MayFail op fails) :
    (f.perform op).Follows (failingTuple fails) fails (fun _ _ => True) () := by
  have hcount := hslots.count
  cases op with
  | read key fields =>
    refine follows_call trivial fun found => ?_
    cases found with
    | none => trivial
    | some slots =>
      refine Attempt.follows_bind.2 ?_
      exact (follows_decodeStored hrows hcount fields).imp fun _ _ _ => trivial
  | scan start count fields =>
    rw [perform, scan, TupleCall.scan]
    by_cases hzero : count = 0
    · simp [hzero]
    · rw [if_neg hzero, bind_assoc]
      exact follows_call trivial fun tuples =>
        Attempt.follows_mapM (fun slots _ _ => follows_decodeStored hrows hcount fields) _
  | update key updates =>
    refine follows_call trivial fun found => ?_
    cases found with
    | none => trivial
    | some slots => exact follows_store (ColumnLayout.follows_overlaid hrows hcount) trivial
  | insert key row =>
    exact follows_store (ColumnLayout.follows_encode hrows hcount (hslots.room key row rfl)) trivial
  | delete key => exact follows_call trivial fun _ => trivial
  | filter low high fields =>
    rw [perform, filter, Attempt.follows_bind, Attempt.follows_ofExcept]
    refine ⟨fun predicate _ => ?_, fun failure hfailure => ?_⟩
    · rw [Attempt.follows_bind, Attempt.follows_ofExcept]
      refine ⟨fun positions _ => ?_, fun failure hfailure => ?_⟩
      · exact follows_call trivial fun tuples =>
          Attempt.follows_filterMapM
            (fun slots _ _ => follows_match? hrows hcount _ _ fields slots) _
      · cases hpositions : predicate.names.mapM f.layout.slotOf? with
        | ok positions => rw [hpositions] at hfailure; cases hfailure
        | error e =>
          rw [hpositions] at hfailure
          cases hfailure
          obtain ⟨name, -, hname⟩ := exists_error_of_mapM hpositions
          rw [ColumnLayout.eq_unknownField_of_slotOf? hname]
          exact hrows _ trivial
    · cases hpredicate : Predicate.ofBounds? low high with
      | ok predicate => rw [hpredicate] at hfailure; cases hfailure
      | error cause => rw [hpredicate] at hfailure; cases hfailure; exact hrows _ trivial

end ColumnarFormat

/-! ## What engines fail with -/

theorem Row.refusesRows_of_mergeEncoded {existing : Option Bytes} {operand : Bytes} {e : Error}
    (h : (mergeEncoded existing operand).value = .error e) : Failure.RefusesRows (.raised e) := by
  have hdecode : ∀ {buffer : Bytes} {e : Error}, (decode buffer).value = .error e →
      Failure.RefusesRows (.raised e) := by
    intro buffer e hbuffer
    rw [value_decode] at hbuffer
    cases hrow : decode? buffer with
    | ok row => rw [hrow] at hbuffer; cases hbuffer
    | error cause => rw [hrow] at hbuffer; cases hbuffer; trivial
  simp only [mergeEncoded, Program.click, Program.emit, Program.note_bind, Program.done_bind,
    Program.value_note, Program.value_bind] at h
  cases hupdates : (decode operand : Program .silent _).value with
  | error e' =>
    rw [hupdates] at h
    cases h
    exact hdecode hupdates
  | ok updates =>
    simp only [hupdates, Program.value_bind] at h
    cases hcurrent : (existing.elim (pure (.ok [])) decode : Program .silent _).value with
    | error e' =>
      rw [hcurrent] at h
      cases h
      cases existing with
      | none => cases hcurrent
      | some buffer => exact hdecode hcurrent
    | ok current =>
      simp only [hcurrent, value_encode] at h
      cases hrow : (Row.merge current updates).encode? with
      | ok buffer => rw [hrow] at h; cases h
      | error cause => rw [hrow] at h; cases h; trivial

/-- An engine that serves goes on serving, and refuses a call for the sake of rows at most. -/
theorem KeyValueEngine.serves_serve {e : KeyValueEngine} (h : (Engine.keyValue e).Serves)
    (call : KeyValueCall) :
    (∀ failure, (e.serve call).1 = .error failure → failure.RefusesRows) ∧
      (Engine.keyValue (e.serve call).2).Serves := by
  obtain ⟨hopen, hmerge⟩ := id h
  cases call with
  | get key =>
    rw [← run_attempt, run_get hopen]
    exact ⟨by simp, h⟩
  | put key value =>
    rw [← run_attempt, run_put hopen]
    exact ⟨by simp, h⟩
  | delete key =>
    rw [← run_attempt, run_delete hopen]
    exact ⟨by simp, h⟩
  | visit start =>
    rw [← run_attempt, run_visit hopen]
    exact ⟨by simp, h⟩
  | merge key operand =>
    simp only [serve, answer, hopen, Bool.false_eq_true, if_false, mergeInto, hmerge,
      Program.value_bind]
    cases hmerged : (Row.mergeEncoded e.entries[key]? operand : Program .silent _).value with
    | ok merged => exact ⟨by simp, h⟩
    | error error =>
      refine ⟨?_, h⟩
      rintro _ ⟨⟩
      exact Row.refusesRows_of_mergeEncoded hmerged

/-- An engine that serves goes on serving, and refuses a call for the sake of rows at most, unless
it is to store a tuple without slots. -/
theorem TupleEngine.serves_serve {e : TupleEngine} (h : (Engine.tuple e).Serves)
    (call : TupleCall) :
    (call.HasSlots → ∀ failure, (e.serve call).1 = .error failure → failure.RefusesRows) ∧
      (Engine.tuple (e.serve call).2).Serves := by
  have hopen : e.closed = false := h
  cases call with
  | get key =>
    rw [← run_attempt, run_get hopen]
    exact ⟨fun _ => nofun, h⟩
  | delete key =>
    rw [← run_attempt, run_delete hopen]
    exact ⟨fun _ => nofun, h⟩
  | visit start =>
    rw [← run_attempt, run_visit hopen]
    exact ⟨fun _ => nofun, h⟩
  | put key slots =>
    cases haccepts : e.accepts key slots with
    | ok _ =>
      rw [← run_attempt, run_put hopen haccepts]
      exact ⟨fun _ => nofun, h⟩
    | error failure =>
      have hserve : e.serve (.put key slots) = (.error failure, e) := by
        simp [serve, answer, hopen, haccepts]
      rw [hserve]
      refine ⟨fun hslots => ?_, h⟩
      rintro _ ⟨⟩
      unfold accepts at haccepts
      split at haccepts
      · cases haccepts
        trivial
      · split at haccepts
        · exact absurd rfl hslots
        · split at haccepts <;> cases haccepts
          trivial

/-! ## The registry around an operation -/

namespace Registry

/-- The registry has an engine of a kind under an identity, and it serves. -/
def Serves (r : Registry) (id : Nat) (kind : EngineKind) : Prop :=
  ∃ engine, r.Keeps id engine ∧ engine.kind = kind ∧ engine.Serves

/-- Between two registries nothing has changed but the journal and the engine under an identity. -/
structure AgreesBeside (id : Nat) (r r' : Registry) : Prop where
  properties_eq : r'.properties = r.properties
  registrations_eq : r'.registrations = r.registrations
  engines_eq : ∀ other, other ≠ id → r'.engines[other]? = r.engines[other]?

variable {r r' r'' : Registry} {id : Nat}

theorem AgreesBeside.refl (id : Nat) (r : Registry) : r.AgreesBeside id r :=
  ⟨rfl, rfl, fun _ _ => rfl⟩

theorem AgreesBeside.trans (h : AgreesBeside id r r') (h' : AgreesBeside id r' r'') :
    AgreesBeside id r r'' where
  properties_eq := h'.properties_eq.trans h.properties_eq
  registrations_eq := h'.registrations_eq.trans h.registrations_eq
  engines_eq other hother := (h'.engines_eq other hother).trans (h.engines_eq other hother)

/-- Between two registries nothing has changed but the journal. -/
def AgreesButJournal (r r' : Registry) : Prop := ∃ journal, r' = { r with journal }

theorem AgreesButJournal.refl (r : Registry) : r.AgreesButJournal r := ⟨r.journal, rfl⟩

theorem AgreesButJournal.trans (h : AgreesButJournal r r') (h' : AgreesButJournal r' r'') :
    AgreesButJournal r r'' := by
  obtain ⟨journal, rfl⟩ := h
  obtain ⟨journal', rfl⟩ := h'
  exact ⟨journal', rfl⟩

theorem AgreesButJournal.beside (h : AgreesButJournal r r') (id : Nat) : AgreesBeside id r r' := by
  obtain ⟨journal, rfl⟩ := h
  exact ⟨rfl, rfl, fun _ _ => rfl⟩

theorem AgreesButJournal.serves {kind : EngineKind} (h : AgreesButJournal r r')
    (hserves : r.Serves id kind) : r'.Serves id kind := by
  obtain ⟨journal, rfl⟩ := h
  exact hserves

theorem record_agrees (event : Event) (r : Registry) :
    r.AgreesButJournal ((record event).run r).2 := ⟨event :: r.journal, rfl⟩

theorem runSilent_agrees {α : Type} (p : Program .silent α) (r : Registry) :
    r.AgreesButJournal ((runSilent p).run r).2 := by
  induction p generalizing r with
  | done a => exact .refl r
  | note event rest ih => exact (record_agrees event r).trans (ih _)
  | ask request => exact nomatch request

theorem agreesBeside_setEngine (id : Nat) (engine : Engine) (r : Registry) :
    r.AgreesBeside id ((setEngine id engine).run r).2 where
  properties_eq := rfl
  registrations_eq := rfl
  engines_eq _ hother := List.getElem?_set_ne (Ne.symm hother)

theorem answerKeyValue_agrees (id : Nat) (call : KeyValueCall) (r : Registry) :
    r.AgreesBeside id ((answerKeyValue id call).run r).2 := by
  simp only [answerKeyValue, StateT.run_bind, StateT.run_get, pure_bind]
  cases r.engines[id]? with
  | none => exact .refl id r
  | some engine =>
    cases engine with
    | tuple e => exact .refl id r
    | keyValue e =>
      exact ((runSilent_agrees (e.answer call) r).beside id).trans (agreesBeside_setEngine id _ _)

theorem answerTuple_agrees (id : Nat) (call : TupleCall) (r : Registry) :
    r.AgreesBeside id ((answerTuple id call).run r).2 := by
  simp only [answerTuple, StateT.run_bind, StateT.run_get, pure_bind]
  cases r.engines[id]? with
  | none => exact .refl id r
  | some engine =>
    cases engine with
    | keyValue e => exact .refl id r
    | tuple e => exact agreesBeside_setEngine id _ r

/-- The outcome is a failure as told at most, nothing beside the engine has changed, and the engine
serves. -/
structure Unharmed {α : Type} (r : Registry) (fails : Failure → Prop) (id : Nat)
    (kind : EngineKind) (after : Except Failure α × Registry) : Prop where
  failing : ∀ failure, after.1 = .error failure → fails failure
  agrees : r.AgreesBeside id after.2
  serves : after.2.Serves id kind

theorem Unharmed.overRows {α : Type} {kind : EngineKind} {after : Except Failure α × Registry}
    (h : r.Unharmed Failure.OverRows id kind after) (failure : Failure)
    (hfailure : after.1 = .error failure) : failure.OverRows :=
  h.failing failure hfailure

variable {kind : EngineKind} {fails : Failure → Prop}
  (hrows : ∀ failure, failure.RefusesRows → fails failure)

include hrows

theorem answerKeyValue_unharmed (h : r.Serves id .keyValue) (call : KeyValueCall) :
    r.Unharmed fails id .keyValue ((answerKeyValue id call).run r) := by
  obtain ⟨engine, hkeeps, hkind, hserves⟩ := h
  cases engine with
  | tuple e => cases hkind
  | keyValue e =>
    obtain ⟨hanswer, hkeeps'⟩ := answerKeyValue_eq hkeeps call
    obtain ⟨hrefuses, hserves'⟩ := KeyValueEngine.serves_serve hserves call
    exact ⟨fun failure hfailure => hrows failure (hrefuses failure (hanswer ▸ hfailure)),
      answerKeyValue_agrees id call r, _, hkeeps', rfl, hserves'⟩

theorem answerTuple_unharmed (h : r.Serves id .tuple) {call : TupleCall} (hcall : call.HasSlots) :
    r.Unharmed fails id .tuple ((answerTuple id call).run r) := by
  obtain ⟨engine, hkeeps, hkind, hserves⟩ := h
  cases engine with
  | keyValue e => cases hkind
  | tuple e =>
    obtain ⟨hanswer, hkeeps'⟩ := answerTuple_eq hkeeps call
    obtain ⟨hrefuses, hserves'⟩ := TupleEngine.serves_serve hserves call
    exact ⟨fun failure hfailure => hrows failure (hrefuses hcall failure (hanswer ▸ hfailure)),
      answerTuple_agrees id call r, _, hkeeps', rfl, hserves'⟩

omit hrows in
/-- What each call leaves unharmed, a program that makes them does. -/
theorem interpret_unharmed {R : Type} {A : R → Type} {α : Type} {sort : R → Prop}
    {reply : (call : R) → RegistryM (Except Failure (A call))}
    (hreply : ∀ call, sort call → ∀ r : Registry, r.Serves id kind →
      r.Unharmed fails id kind ((reply call).run r))
    {p : Attempt (fallible R A) α}
    (hp : p.Follows (failing R A sort fails) fails (fun _ _ => True) ())
    (h : r.Serves id kind) :
    r.Unharmed fails id kind
      ((Program.interpret (ι := fallible R A) record reply p.run).run r) := by
  obtain ⟨_, hends, hagrees, hserves⟩ := Program.interpret_follows (ι := fallible R A)
    (I := fun (_ : Unit) r' => r.AgreesBeside id r' ∧ r'.Serves id kind)
    (fun event _ r' hr' => ⟨hr'.1.trans ((record_agrees event r').beside id),
      (record_agrees event r').serves hr'.2⟩)
    (fun _ call r' hcall hr' =>
      have hanswer := hreply call hcall r' hr'.2
      ⟨hanswer.failing, hr'.1.trans hanswer.agrees, hanswer.serves⟩)
    hp ⟨.refl id r, h⟩
  refine ⟨fun failure hfailure => ?_, hagrees, hserves⟩
  rw [hfailure] at hends
  exact hends

end Registry

/-- The shape of the engine referred to. -/
def Binding.kind : Binding → EngineKind
  | keyValue .. => .keyValue
  | tuple .. => .tuple

/-- What an operation may fail with for want of slots, where rows have slots. -/
def Binding.MayFail [Machine] (op : Operation) (fails : Failure → Prop) : Binding → Prop
  | keyValue .. => True
  | tuple _ f => f.MayFail op fails

theorem Binding.mayFail_overRows [Machine] (binding : Binding) (op : Operation) :
    binding.MayFail op Failure.OverRows := by
  cases binding with
  | keyValue id f => trivial
  | tuple id f => exact f.mayFail_overRows op

namespace EngineAdapter

open Registry

variable {a : EngineAdapter} {r : Registry} {binding : Binding}

theorem counted_agrees {α : Type} (result : Except Failure α) (r : Registry) :
    ((counted result).run r).1 = result ∧ r.AgreesButJournal ((counted result).run r).2 := by
  rcases result with (_ | _ | _) | _ <;> exact ⟨rfl, _, rfl⟩

theorem performOn_unharmed [Machine] {op : Operation} {fails : Failure → Prop}
    (hrows : ∀ failure, failure.RefusesRows → fails failure) (hslots : binding.MayFail op fails)
    (h : r.Serves binding.engineId binding.kind) :
    r.Unharmed fails binding.engineId binding.kind ((performOn op binding).run r) := by
  cases binding with
  | keyValue id f =>
    exact interpret_unharmed (fun call _ _ hr => answerKeyValue_unharmed hrows hr call)
      (SchemalessFormat.follows_perform_failing hrows op) h
  | tuple id f =>
    exact interpret_unharmed (fun _ hcall _ hr => answerTuple_unharmed hrows hr hcall)
      (ColumnarFormat.follows_perform_failing hrows hslots) h

/-- Report what came of an operation on the engine. -/
def report (op : Operation) (outcome : Except Failure op.Result) :
    RegistryM (Except Failure op.Result) := do
  let result ← counted outcome
  match result with
  | .ok value => (notFoundSensor? op value).forM Registry.click
  | .error _ => pure ()
  return result

theorem report_agrees (op : Operation) (outcome : Except Failure op.Result) (r : Registry) :
    ((report op outcome).run r).1 = outcome ∧
      r.AgreesButJournal ((report op outcome).run r).2 := by
  rcases outcome with (_ | _ | _) | value
  · exact ⟨rfl, _, rfl⟩
  · exact ⟨rfl, _, rfl⟩
  · exact ⟨rfl, _, rfl⟩
  · refine ⟨rfl, ?_⟩
    show r.AgreesButJournal
      (((notFoundSensor? op value).forM Registry.click : RegistryM Unit).run r).2
    cases notFoundSensor? op value <;> exact ⟨_, rfl⟩

theorem perform_eq_report [Machine] (hbinding : a.binding = some binding) (op : Operation) :
    a.perform op =
      Registry.click (.adapterOperation op.kind) >>= fun _ =>
        performOn op binding >>= report op := by
  rw [perform, hbinding]
  rfl

/-- An operation of an initialized adapter does no harm to an engine that serves, and fails as told
where rows may be refused and slots not be had. -/
theorem perform_unharmed_of_mayFail [Machine] (hbinding : a.binding = some binding) {op : Operation}
    {fails : Failure → Prop} (hrows : ∀ failure, failure.RefusesRows → fails failure)
    (hslots : binding.MayFail op fails) (h : r.Serves binding.engineId binding.kind) :
    r.Unharmed fails binding.engineId binding.kind ((a.perform op).run r) := by
  let clicked := ((Registry.click (.adapterOperation op.kind)).run r).2
  let performed := (performOn op binding).run clicked
  have hclicked : r.AgreesButJournal clicked := record_agrees _ r
  have hperformed : clicked.Unharmed fails binding.engineId binding.kind performed :=
    performOn_unharmed hrows hslots (hclicked.serves h)
  obtain ⟨hsame, hreported⟩ := report_agrees op performed.1 performed.2
  rw [perform_eq_report hbinding]
  exact ⟨fun failure hfailure => hperformed.failing failure (hsame.symm.trans hfailure),
    ((hclicked.beside _).trans hperformed.agrees).trans (hreported.beside _),
    hreported.serves hperformed.serves⟩

theorem perform_unharmed [Machine] (hbinding : a.binding = some binding)
    (h : r.Serves binding.engineId binding.kind) (op : Operation) :
    r.Unharmed Failure.OverRows binding.engineId binding.kind ((a.perform op).run r) :=
  perform_unharmed_of_mayFail hbinding (fun _ => Failure.RefusesRows.overRows)
    (binding.mayFail_overRows op) h

/-- An operation of an adapter that is not initialized is refused. -/
theorem perform_of_binding_none [Machine] (hbinding : a.binding = none) (op : Operation)
    (r : Registry) :
    ((a.perform op).run r).1 = .error (.raised (.configuration (.usedOutside a.name))) ∧
      r.AgreesButJournal ((a.perform op).run r).2 := by
  simp only [perform, hbinding]
  exact ⟨rfl, _, rfl⟩

end EngineAdapter

end StoreBench
