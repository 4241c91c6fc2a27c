import StoreBench.Client.Measured
import StoreBench.Proofs.Lifecycle
/-!
# Atomic operations

An operation makes one call that writes at most, under its own key and as its last call, and it is
done exactly if that call succeeds. So an operation that fails, or updates a key that is not there,
leaves every engine as it was, whatever the engine holds; one that is done leaves the values under
all other keys alone; and operations that look something up write nothing.
-/

namespace StoreBench

/-- The key an operation writes under. -/
def Operation.target? : Operation → Option Bytes
  | update key _ | insert key _ | delete key => some key
  | read .. | scan .. | filter .. => none

/-- Whether a call changes the engine when it succeeds. -/
def KeyValueCall.writes : KeyValueCall → Bool
  | put .. | merge .. | delete _ => true
  | get _ | visit _ => false

def TupleCall.writes : TupleCall → Bool
  | put .. | delete _ => true
  | get _ | visit _ => false

/-- Whether a call is one that finishes an operation. -/
def KeyValueCall.Finishes : Operation → KeyValueCall → Prop
  | .insert key _, put k _ | .update key _, put k _ | .update key _, merge k _ => k = key
  | .delete key, delete k => k = key
  | _, _ => False

def TupleCall.Finishes : Operation → TupleCall → Prop
  | .insert key _, put k _ | .update key _, put k _ => k = key
  | .delete key, delete k => k = key
  | _, _ => False

/-- A value is stored by an operation that is no deletion. -/
theorem KeyValueCall.Finishes.put {op : Operation} {key value : Bytes}
    (h : (KeyValueCall.put key value).Finishes op) :
    op.target? = some key ∧ op.kind ≠ .delete := by
  cases op with
  | insert k _ | update k _ => exact ⟨congrArg some (Eq.symm h), OperationKind.noConfusion⟩
  | _ => cases h

theorem KeyValueCall.Finishes.merge {op : Operation} {key operand : Bytes}
    (h : (KeyValueCall.merge key operand).Finishes op) :
    op.target? = some key ∧ op.kind ≠ .delete := by
  cases op with
  | update k _ => exact ⟨congrArg some (Eq.symm h), OperationKind.noConfusion⟩
  | _ => cases h

theorem KeyValueCall.Finishes.delete {op : Operation} {key : Bytes}
    (h : (KeyValueCall.delete key).Finishes op) : op = .delete key := by
  cases op with
  | delete k => exact congrArg Operation.delete (Eq.symm h)
  | _ => cases h

theorem TupleCall.Finishes.put {op : Operation} {key : Bytes} {slots : Slots}
    (h : (TupleCall.put key slots).Finishes op) :
    op.target? = some key ∧ op.kind ≠ .delete := by
  cases op with
  | insert k _ | update k _ => exact ⟨congrArg some (Eq.symm h), OperationKind.noConfusion⟩
  | _ => cases h

theorem TupleCall.Finishes.delete {op : Operation} {key : Bytes}
    (h : (TupleCall.delete key).Finishes op) : op = .delete key := by
  cases op with
  | delete k => exact congrArg Operation.delete (Eq.symm h)
  | _ => cases h

/-- The rules of one who writes once, with calls that finish what it is about. What is known is
whether a call that writes has succeeded. -/
def writesOnce {R : Type} (A : R → Type) (writes : R → Bool) (finishes : R → Prop) :
    Protocol (fallible R A) Bool where
  allows written call := writes call = true → written = false ∧ finishes call
  expects _ _ _ := True
  next written call answer := written || (writes call && answer.isOk)

/-- An operation that has a key to write under is done if and only if it has written. -/
def Operation.Settles (op : Operation) (written : Bool) (outcome : Except Failure op.Result) :
    Prop :=
  op.target?.isSome → written = op.done outcome

/-! ## What operations call -/

section Calls

variable {R : Type} {A : R → Type} {call : R} {α κ : Type}

/-- A call, and whatever comes after it. -/
theorem follows_call_of_trivial {P : Protocol (fallible R A) κ} {k : κ}
    {rest : A call → Attempt (fallible R A) α} (hcall : P.allows k call)
    (hrest : ∀ a k, (rest a).Follows P (fun _ => True) (fun _ _ => True) k) :
    Attempt.Follows P (fun _ => True) (fun _ _ => True) k
      ((ExceptT.mk (Program.call (ι := fallible R A) call) : Attempt (fallible R A) (A call)) >>=
        rest) := by
  refine Attempt.follows_bind.2 ⟨hcall, fun answer _ => ?_⟩
  cases answer with
  | error failure => trivial
  | ok a => exact hrest a _

variable {writes : R → Bool} {finishes : R → Prop} {written : Bool}
  {ends : Bool → Except Failure α → Prop}

/-- A call that writes nothing, and what comes after it. -/
theorem follows_look {rest : A call → Attempt (fallible R A) α} (hcall : writes call = false)
    (hok : ∀ a, (rest a).run.Follows (writesOnce A writes finishes) ends written)
    (herror : ∀ failure, ends written (.error failure)) :
    Program.Follows (writesOnce A writes finishes) ends written
      ((ExceptT.mk (Program.call (ι := fallible R A) call) : Attempt (fallible R A) (A call)) >>=
        rest).run := by
  have hnext : ∀ answer, (writesOnce A writes finishes).next written call answer = written := by
    intro answer
    simp [writesOnce, hcall]
  refine Attempt.follows_run_bind.2 ⟨fun hwrites => ?_, fun answer _ => ?_⟩
  · rw [hcall] at hwrites
    cases hwrites
  · rw [hnext]
    cases answer with
    | error failure => exact herror failure
    | ok a => exact hok a

/-- The last call, which writes. -/
theorem follows_finish {b : α} (hcall : writes call = true) (hfinishes : finishes call)
    (hok : ends true (.ok b)) (herror : ∀ failure, ends false (.error failure)) :
    Program.Follows (writesOnce A writes finishes) ends false
      ((ExceptT.mk (Program.call (ι := fallible R A) call) : Attempt (fallible R A) (A call)) >>=
        fun _ => pure b).run := by
  refine Attempt.follows_run_bind.2 ⟨fun _ => ⟨rfl, hfinishes⟩, fun answer _ => ?_⟩
  cases answer with
  | error failure => simpa [writesOnce, hcall, Except.isOk, Except.toBool] using herror failure
  | ok a => simpa [writesOnce, hcall, Except.isOk, Except.toBool] using hok

/-- Operations that look something up have nothing to settle. -/
theorem Operation.settles_of_target_none {op : Operation} (h : op.target? = none)
    {P : Protocol (fallible R A) Bool} {p : Attempt (fallible R A) op.Result}
    (hp : p.Follows P (fun _ => True) (fun _ _ => True) written) :
    p.run.Follows P op.Settles written := by
  refine Program.Follows.imp hp fun k result _ hsome => ?_
  rw [h] at hsome
  cases hsome

end Calls

namespace SchemalessFormat

variable {f : SchemalessFormat} {op : Operation} {κ : Type} {P : Protocol keyValueCalls κ} {k : κ}

/-- Looking at a stored value takes no call. -/
theorem follows_decodeStored_any {key value : Bytes} (fields : Selection) :
    (f.decodeStored key value fields).Follows P (fun _ => True) (fun _ _ => True) k := by
  cases fields with
  | some wanted =>
    rw [decodeStored, Attempt.follows_ofProgram, Row.follows_select]
    cases Row.select? wanted value <;> trivial
  | none =>
    rw [decodeStored, Attempt.follows_bind, Attempt.follows_ofProgram, Row.follows_decode]
    cases Row.decode? value with
    | error cause => trivial
    | ok row =>
      by_cases hlength : row.length = f.fieldCount
      · simp [mapError_ok, hlength]
      · simp only [mapError_ok, ne_eq, hlength, not_false_eq_true, if_true]
        trivial

theorem follows_match?_any {key value : Bytes} (predicate : Predicate) (fields : Selection) :
    (f.match? predicate fields key value).Follows P (fun _ => True) (fun _ _ => True) k := by
  rw [match?, Attempt.follows_bind]
  refine (follows_decodeStored_any none).imp fun k row _ => ?_
  split
  · cases fields with
    | none => trivial
    | some wanted =>
      have hselect : (f.decodeStored key value (some wanted) : Attempt keyValueCalls Row).Follows P
          (fun _ => True) (fun _ _ => True) k := follows_decodeStored_any (some wanted)
      rw [Attempt.follows_bind]
      exact hselect.imp fun _ _ _ => trivial
  · trivial

/-- Operations without a key to write under only look. -/
theorem follows_of_target_none (hget : ∀ k key, P.allows k (.get key))
    (hvisit : ∀ k start, P.allows k (.visit start)) (h : op.target? = none) :
    (f.perform op).Follows P (fun _ => True) (fun _ _ => True) k := by
  cases op with
  | read key fields =>
    refine follows_call_of_trivial (hget k key) fun found k => ?_
    cases found with
    | none => trivial
    | some value =>
      refine Attempt.follows_bind.2 ?_
      exact (follows_decodeStored_any fields).imp fun _ _ _ => trivial
  | scan start count fields =>
    rw [perform, scan, KeyValueCall.scan]
    by_cases hzero : count = 0
    · simp [hzero]
    · rw [if_neg hzero, bind_assoc]
      exact follows_call_of_trivial (hvisit k start) fun entries k =>
        Attempt.follows_mapM (fun x _ k => follows_decodeStored_any fields) k
  | filter low high fields =>
    rw [perform, filter, Attempt.follows_bind, Attempt.follows_ofExcept]
    refine ⟨fun predicate _ => ?_, fun _ _ => trivial⟩
    exact follows_call_of_trivial (hvisit k []) fun entries k =>
      Attempt.follows_filterMapM (fun x _ k => follows_match?_any predicate fields) k
  | _ => cases h

theorem follows_encode_silent {row : Row} :
    (Attempt.ofProgram (Row.encode row) : Attempt keyValueCalls Bytes).Follows .silent
      (fun _ => True) (fun _ _ => True) () := by
  rw [Attempt.follows_ofProgram, Row.follows_encode]
  cases row.encode? <;> trivial

/-- An operation writes with its last call, and is done if that succeeds. -/
theorem follows_perform_writesOnce (f : SchemalessFormat) (op : Operation) :
    (f.perform op).run.Follows
      (writesOnce KeyValueCall.Result KeyValueCall.writes (KeyValueCall.Finishes op))
      op.Settles false := by
  have herror : ∀ failure, op.Settles false (.error failure) := fun _ _ => rfl
  cases op with
  | insert key row =>
    refine Attempt.follows_run_bind_of_silent follows_encode_silent (fun value => ?_) herror
    exact follows_finish rfl rfl (fun _ => rfl) herror
  | delete key => exact follows_finish rfl rfl (fun _ => rfl) herror
  | update key updates =>
    rw [perform, update]
    split
    · refine follows_look rfl (fun found => ?_) herror
      cases found with
      | none => exact fun _ => rfl
      | some value =>
        refine Attempt.follows_run_bind_of_silent follows_encode_silent (fun operand => ?_) herror
        exact follows_finish rfl rfl (fun _ => rfl) herror
    · refine follows_look rfl (fun found => ?_) herror
      cases found with
      | none => exact fun _ => rfl
      | some value =>
        have hdecode : (Attempt.ofProgram (Row.decode value) : Attempt keyValueCalls Row).Follows
            .silent (fun _ => True) (fun _ _ => True) () := by
          rw [Attempt.follows_ofProgram, Row.follows_decode]
          cases Row.decode? value <;> trivial
        refine Attempt.follows_run_bind_of_silent hdecode (fun row => ?_) herror
        have hoverlay : (Attempt.ofExcept ((row.overlay? updates).mapError .raised) :
            Attempt keyValueCalls Row).Follows .silent (fun _ => True) (fun _ _ => True) () :=
          Attempt.follows_ofExcept.2 ⟨fun _ _ => trivial, fun _ _ => trivial⟩
        refine Attempt.follows_run_bind_of_silent hoverlay (fun overlaid => ?_) herror
        refine Attempt.follows_run_bind_of_silent follows_encode_silent (fun value => ?_) herror
        exact follows_finish rfl rfl (fun _ => rfl) herror
  | _ =>
    refine Operation.settles_of_target_none rfl (follows_of_target_none ?_ ?_ rfl)
    · intro written key hwrites
      exact absurd hwrites Bool.false_ne_true
    · intro written start hwrites
      exact absurd hwrites Bool.false_ne_true

end SchemalessFormat

namespace ColumnarFormat

variable {f : ColumnarFormat} {op : Operation} {κ : Type} {P : Protocol tupleCalls κ} {k : κ}

/-- Looking at stored slots takes no call. -/
theorem follows_decodeStored_any {slots : Slots} (fields : Selection) :
    (f.decodeStored slots fields).Follows P (fun _ => True) (fun _ _ => True) k :=
  follows_decodeStored (fun _ _ => trivial) (fun _ _ => trivial) fields

/-- Operations without a key to write under only look. -/
theorem follows_of_target_none [Machine] (hget : ∀ k key, P.allows k (.get key))
    (hvisit : ∀ k start, P.allows k (.visit start)) (h : op.target? = none) :
    (f.perform op).Follows P (fun _ => True) (fun _ _ => True) k := by
  cases op with
  | read key fields =>
    refine follows_call_of_trivial (hget k key) fun found k => ?_
    cases found with
    | none => trivial
    | some slots =>
      refine Attempt.follows_bind.2 ?_
      exact (follows_decodeStored_any fields).imp fun _ _ _ => trivial
  | scan start count fields =>
    rw [perform, scan, TupleCall.scan]
    by_cases hzero : count = 0
    · simp [hzero]
    · rw [if_neg hzero, bind_assoc]
      exact follows_call_of_trivial (hvisit k start) fun tuples k =>
        Attempt.follows_mapM (fun slots _ k => follows_decodeStored_any fields) k
  | filter low high fields =>
    rw [perform, filter, Attempt.follows_bind, Attempt.follows_ofExcept]
    refine ⟨fun predicate _ => ?_, fun _ _ => trivial⟩
    rw [Attempt.follows_bind, Attempt.follows_ofExcept]
    refine ⟨fun positions _ => ?_, fun _ _ => trivial⟩
    refine follows_call_of_trivial (hvisit k []) fun tuples k =>
      Attempt.follows_filterMapM (fun slots _ k => ?_) k
    rw [match?]
    split
    · rw [Attempt.follows_bind]
      exact (follows_decodeStored_any fields).imp fun _ _ _ => trivial
    · trivial
  | _ => cases h

/-- An operation writes with its last call, and is done if that succeeds. -/
theorem follows_perform_writesOnce [Machine] (f : ColumnarFormat) (op : Operation) :
    (f.perform op).run.Follows
      (writesOnce TupleCall.Result TupleCall.writes (TupleCall.Finishes op)) op.Settles false := by
  have herror : ∀ failure, op.Settles false (.error failure) := fun _ _ => rfl
  cases op with
  | insert key row =>
    have hencode : (f.layout.encode key row : Attempt tupleCalls Slots).Follows .silent
        (fun _ => True) (fun _ _ => True) () :=
      (ColumnLayout.follows_encode (fun _ _ => trivial) (fun _ _ => trivial)
        fun _ _ => trivial).imp fun _ _ _ => trivial
    refine Attempt.follows_run_bind_of_silent hencode (fun slots => ?_) herror
    exact follows_finish rfl rfl (fun _ => rfl) herror
  | delete key => exact follows_finish rfl rfl (fun _ => rfl) herror
  | update key updates =>
    refine follows_look rfl (fun found => ?_) herror
    cases found with
    | none => exact fun _ => rfl
    | some slots =>
      have hoverlaid : (f.layout.overlaid slots updates : Attempt tupleCalls Slots).Follows .silent
          (fun _ => True) (fun _ _ => True) () :=
        (ColumnLayout.follows_overlaid (fun _ _ => trivial) fun _ _ => trivial).imp
          fun _ _ _ => trivial
      refine Attempt.follows_run_bind_of_silent hoverlaid (fun slots => ?_) herror
      exact follows_finish rfl rfl (fun _ => rfl) herror
  | _ =>
    refine Operation.settles_of_target_none rfl (follows_of_target_none ?_ ?_ rfl)
    · intro written key hwrites
      exact absurd hwrites Bool.false_ne_true
    · intro written start hwrites
      exact absurd hwrites Bool.false_ne_true

end ColumnarFormat

/-! ## What calls leave of an engine -/

namespace Engine

/-- The value under a key, slot by slot. A key-value engine has one slot. -/
def value? (key : Bytes) : Engine → Option (List Bytes)
  | keyValue e => e.entries[key]?.map ([·])
  | tuple e => e.tuples[key]?

/-- Two states of an engine that differ in the value under a key at most. -/
def SameBeside (key : Bytes) (before after : Engine) : Prop :=
  after.kind = before.kind ∧ ∀ other, other ≠ key → after.value? other = before.value? other

end Engine

/-- An engine before and after an operation has written: there is a value under the key of the
operation, or none after a deletion, and all else is as it was. -/
def Operation.Wrote (op : Operation) (before after : Engine) : Prop :=
  ∃ key, op.target? = some key ∧ before.SameBeside key after ∧
    ((after.value? key).isSome ↔ op.kind ≠ .delete)

/-- An engine before and after an operation that may have written. -/
def Operation.Leaves (op : Operation) (before after : Engine) : (written : Bool) → Prop
  | false => after = before
  | true => op.Wrote before after

/-- The same about all engines, of which the operation uses one. -/
def Operation.LeavesAll (op : Operation) (id : Nat) (before after : List Engine) :
    (written : Bool) → Prop
  | false => after = before
  | true => ∃ engine engine', before[id]? = some engine ∧ op.Wrote engine engine' ∧
      after = before.set id engine'

theorem Operation.leavesAll_set {op : Operation} {id : Nat} {engines : List Engine}
    {engine engine' : Engine} {written : Bool} (hid : engines[id]? = some engine)
    (h : op.Leaves engine engine' written) :
    op.LeavesAll id engines (engines.set id engine') written := by
  cases written with
  | true => exact ⟨engine, engine', hid, h, rfl⟩
  | false =>
    obtain ⟨hlt, rfl⟩ := List.getElem?_eq_some_iff.1 hid
    show engines.set id engine' = engines
    rw [show engine' = engines[id] from h, List.set_getElem_self]

namespace KeyValueEngine

variable (e : KeyValueEngine) {key : Bytes} {op : Operation}

theorem wrote_store (htarget : op.target? = some key) (hkind : op.kind ≠ .delete) (value : Bytes) :
    op.Wrote (.keyValue e) (.keyValue (e.store key value)) := by
  refine ⟨key, htarget, ⟨rfl, fun other hother => ?_⟩, ?_⟩
  · simp [Engine.value?, store, Std.ExtTreeMap.getElem?_insert, Ne.symm hother]
  · simp [Engine.value?, store, hkind]

theorem wrote_drop : (Operation.delete key).Wrote (.keyValue e) (.keyValue (e.drop key)) := by
  refine ⟨key, rfl, ⟨rfl, fun other hother => ?_⟩, ?_⟩
  · simp [Engine.value?, drop, Std.ExtTreeMap.getElem?_erase, Ne.symm hother]
  · simp [Engine.value?, drop, Operation.kind]

/-- What a merge operator makes is stored under the key, and if it makes nothing, nothing is. -/
theorem leaves_merge {operand : Bytes} (h : (KeyValueCall.merge key operand).Finishes op) :
    op.Leaves (.keyValue e) (.keyValue (e.mergeInto key operand).value.2)
      (e.mergeInto key operand).value.1.isOk := by
  rw [mergeInto]
  split
  · rfl
  · rw [Program.value_bind]
    split
    · rename_i merged _
      exact e.wrote_store h.merge.1 h.merge.2 merged
    · rfl

/-- A call that writes changes the engine if it succeeds. Nothing else does. -/
theorem leaves_serve {call : KeyValueCall} (h : call.writes = true → call.Finishes op) :
    op.Leaves (.keyValue e) (.keyValue (e.serve call).2)
      (call.writes && (e.serve call).1.isOk) := by
  by_cases hclosed : e.closed
  · have hserve : e.serve call = (.error (.raised (.engine (.closed e.name))), e) := by
      simp [serve, answer, hclosed]
    rw [hserve]
    cases call <;> rfl
  · have hopen : e.closed = false := by simpa using hclosed
    cases call with
    | get key =>
      rw [← run_attempt, run_get hopen]
      rfl
    | visit start =>
      rw [← run_attempt, run_visit hopen]
      rfl
    | put key value =>
      obtain ⟨htarget, hkind⟩ := (h rfl).put
      rw [← run_attempt, run_put hopen]
      exact e.wrote_store htarget hkind value
    | delete key =>
      obtain rfl := (h rfl).delete
      rw [← run_attempt, run_delete hopen]
      exact e.wrote_drop
    | merge key operand =>
      have hserve : e.serve (.merge key operand) = (e.mergeInto key operand).value := by
        simp [serve, answer, hopen]
      rw [hserve]
      exact e.leaves_merge (h rfl)

end KeyValueEngine

namespace TupleEngine

variable (e : TupleEngine) {key : Bytes} {op : Operation}

theorem wrote_insert (htarget : op.target? = some key) (hkind : op.kind ≠ .delete)
    (slots : List Bytes) :
    op.Wrote (.tuple e) (.tuple { e with tuples := e.tuples.insert key slots }) := by
  refine ⟨key, htarget, ⟨rfl, fun other hother => ?_⟩, ?_⟩
  · simp [Engine.value?, Std.ExtTreeMap.getElem?_insert, Ne.symm hother]
  · simp [Engine.value?, hkind]

theorem wrote_erase :
    (Operation.delete key).Wrote (.tuple e) (.tuple { e with tuples := e.tuples.erase key }) := by
  refine ⟨key, rfl, ⟨rfl, fun other hother => ?_⟩, ?_⟩
  · simp [Engine.value?, Std.ExtTreeMap.getElem?_erase, Ne.symm hother]
  · simp [Engine.value?, Operation.kind]

/-- A call that writes changes the engine if it succeeds. Nothing else does. -/
theorem leaves_serve {call : TupleCall} (h : call.writes = true → call.Finishes op) :
    op.Leaves (.tuple e) (.tuple (e.serve call).2) (call.writes && (e.serve call).1.isOk) := by
  by_cases hclosed : e.closed
  · have hserve : e.serve call = (.error (.raised (.engine (.closed e.name))), e) := by
      simp [serve, answer, hclosed]
    rw [hserve]
    cases call <;> rfl
  · have hopen : e.closed = false := by simpa using hclosed
    cases call with
    | get key =>
      rw [← run_attempt, run_get hopen]
      rfl
    | visit start =>
      rw [← run_attempt, run_visit hopen]
      rfl
    | put key slots =>
      obtain ⟨htarget, hkind⟩ := (h rfl).put
      cases haccepts : e.accepts key slots with
      | error failure =>
        have hserve : e.serve (.put key slots) = (.error failure, e) := by
          simp [serve, answer, hopen, haccepts]
        rw [hserve]
        rfl
      | ok =>
        rw [← run_attempt, run_put hopen haccepts]
        exact e.wrote_insert htarget hkind slots
    | delete key =>
      obtain rfl := (h rfl).delete
      rw [← run_attempt, run_delete hopen]
      exact e.wrote_erase

end TupleEngine

/-! ## Operations on a registry -/

namespace Registry

variable {op : Operation} {id : Nat}

theorem AgreesButJournal.engines_eq {r r' : Registry} (h : r.AgreesButJournal r') :
    r'.engines = r.engines := by
  obtain ⟨journal, rfl⟩ := h
  rfl

theorem leavesAll_answerKeyValue {call : KeyValueCall}
    (h : call.writes = true → call.Finishes op) (r : Registry) :
    op.LeavesAll id r.engines ((answerKeyValue id call).run r).2.engines
      (call.writes && ((answerKeyValue id call).run r).1.isOk) := by
  simp only [answerKeyValue, StateT.run_bind, StateT.run_get, pure_bind]
  split
  · rename_i e hid
    obtain ⟨hvalue, hengines⟩ := runSilent_eq (e.answer call) r
    show op.LeavesAll id r.engines (((runSilent (e.answer call)).run r).2.engines.set id
      (.keyValue ((runSilent (e.answer call)).run r).1.2))
      (call.writes && ((runSilent (e.answer call)).run r).1.1.isOk)
    rw [hvalue, hengines]
    exact Operation.leavesAll_set hid (e.leaves_serve h)
  · show op.LeavesAll id r.engines r.engines (call.writes && false)
    rw [Bool.and_false]
    rfl

theorem leavesAll_answerTuple {call : TupleCall}
    (h : call.writes = true → call.Finishes op) (r : Registry) :
    op.LeavesAll id r.engines ((answerTuple id call).run r).2.engines
      (call.writes && ((answerTuple id call).run r).1.isOk) := by
  simp only [answerTuple, StateT.run_bind, StateT.run_get, pure_bind]
  split
  · rename_i e hid
    exact Operation.leavesAll_set hid (e.leaves_serve h)
  · show op.LeavesAll id r.engines r.engines (call.writes && false)
    rw [Bool.and_false]
    rfl

/-- What holds of each call holds of an operation that makes them and writes once. -/
theorem interpret_leavesAll {R : Type} {A : R → Type} {α : Type} {writes : R → Bool}
    {finishes : R → Prop} {reply : (call : R) → RegistryM (Except Failure (A call))}
    {ends : Bool → Except Failure α → Prop} {p : Attempt (fallible R A) α}
    (hreply : ∀ (call : R) (r : Registry), (writes call = true → finishes call) →
      op.LeavesAll id r.engines ((reply call).run r).2.engines
        (writes call && ((reply call).run r).1.isOk))
    (hp : p.run.Follows (writesOnce A writes finishes) ends false) (r : Registry) :
    let after := (Program.interpret (ι := fallible R A) record reply p.run).run r
    ∃ written, ends written after.1 ∧ op.LeavesAll id r.engines after.2.engines written := by
  let I (written : Bool) (r' : Registry) : Prop := op.LeavesAll id r.engines r'.engines written
  have hrecord : ∀ event written (r' : Registry), I written r' →
      I written ((record event).run r').2 := fun _ _ _ hr => hr
  refine Program.interpret_follows (ι := fallible R A) hrecord
    (fun written call r' hallows hr => ⟨trivial, ?_⟩) hp rfl
  have hstep := hreply call r' fun hwrites => (hallows hwrites).2
  cases hwrites : writes call with
  | false =>
    have hsame : ((reply call).run r').2.engines = r'.engines := by
      rw [hwrites] at hstep
      exact hstep
    show op.LeavesAll id r.engines ((reply call).run r').2.engines _
    rw [hsame]
    simpa [writesOnce, hwrites] using hr
  | true =>
    obtain ⟨rfl, -⟩ := hallows hwrites
    rw [show r'.engines = r.engines from hr] at hstep
    simpa [I, writesOnce, hwrites] using hstep

end Registry

namespace EngineAdapter

/-- An operation on an engine leaves all engines as it settled. -/
theorem leavesAll_performOn [Machine] (binding : Binding) (op : Operation) (r : Registry) :
    let after := (performOn op binding).run r
    ∃ written, op.Settles written after.1 ∧
      op.LeavesAll binding.engineId r.engines after.2.engines written := by
  cases binding with
  | keyValue id f =>
    exact Registry.interpret_leavesAll (fun _ r h => Registry.leavesAll_answerKeyValue h r)
      (f.follows_perform_writesOnce op) r
  | tuple id f =>
    exact Registry.interpret_leavesAll (fun _ r h => Registry.leavesAll_answerTuple h r)
      (f.follows_perform_writesOnce op) r

/-- An operation of an adapter leaves all engines as it settled. -/
theorem leavesAll_perform [Machine] {a : EngineAdapter} {binding : Binding}
    (hbinding : a.binding = some binding) (op : Operation) (r : Registry) :
    let after := (a.perform op).run r
    ∃ written, op.Settles written after.1 ∧
      op.LeavesAll binding.engineId r.engines after.2.engines written := by
  intro after
  obtain ⟨hresult, hengines⟩ := perform_eq hbinding op r
  rw [hresult, hengines]
  exact leavesAll_performOn binding op _

end EngineAdapter

/-- What an operation may leave of the engines, given its outcome. -/
theorem Operation.Settles.engines_eq {op : Operation} {written : Bool}
    {outcome : Except Failure op.Result} {id : Nat} {engines engines' : List Engine}
    (hsettles : op.Settles written outcome) (h : op.LeavesAll id engines engines' written)
    (hlooks : op.target? = none ∨ op.done outcome = false) : engines' = engines := by
  cases written with
  | false => exact h
  | true =>
    obtain ⟨_, _, -, ⟨key, htarget, -⟩, -⟩ := h
    have hdone := hsettles (htarget ▸ rfl)
    rcases hlooks with hnone | hnot
    · rw [hnone] at htarget
      cases htarget
    · rw [hnot] at hdone
      cases hdone

namespace Adapter

/-- The identity of the engine that an initialized adapter uses. -/
def engineId? : Adapter → Option Nat
  | basic _ => none
  | engine a => a.binding.map Binding.engineId

/-- Whatever the engines hold, operations are atomic: one that looks something up, that fails, or
that updates a key that is not there leaves all engines as they were; one that is done leaves every
engine that is not the adapter's as it was, and of that one the values under all keys but its own,
under which there is a value afterwards unless it was deleted. -/
theorem perform_atomic [Machine] (a : Adapter) (op : Operation) (r : Registry) :
    let after := (a.perform op).run r
    (op.target? = none ∨ op.done after.1 = false → after.2.engines = r.engines) ∧
    ∀ key, op.target? = some key → op.done after.1 = true →
      (∀ id, a.engineId? ≠ some id → after.2.engines[id]? = r.engines[id]?) ∧
      ∀ id, a.engineId? = some id →
        ∃ before now, r.engines[id]? = some before ∧ after.2.engines[id]? = some now ∧
          before.SameBeside key now ∧ ((now.value? key).isSome ↔ op.kind ≠ .delete) := by
  intro after
  cases a with
  | basic b =>
    have hsame : after.2.engines = r.engines := (b.perform_agrees op).engines_eq
    exact ⟨fun _ => hsame, fun _ _ _ => ⟨fun _ _ => by rw [hsame], nofun⟩⟩
  | engine a =>
    cases hbinding : a.binding with
    | none =>
      obtain ⟨hrefused, hagrees⟩ := EngineAdapter.perform_of_binding_none hbinding op r
      refine ⟨fun _ => hagrees.engines_eq, fun key _ hdone => ?_⟩
      rw [show after.1 = _ from hrefused] at hdone
      cases hdone
    | some binding =>
      obtain ⟨written, hsettles, hleaves⟩ := EngineAdapter.leavesAll_perform hbinding op r
      refine ⟨hsettles.engines_eq hleaves, fun key htarget hdone => ?_⟩
      have hid : engineId? (.engine a) = some binding.engineId := by simp [engineId?, hbinding]
      obtain rfl : written = true := (hsettles (htarget ▸ rfl)).trans hdone
      obtain ⟨before, now, hbefore, ⟨key', htarget', hbeside, hvalue⟩, hengines⟩ := hleaves
      obtain rfl : key' = key := Option.some.inj (htarget'.symm.trans htarget)
      have hlt : binding.engineId < r.engines.length := (List.getElem?_eq_some_iff.1 hbefore).1
      rw [hid]
      refine ⟨fun id hother => ?_, ?_⟩
      · rw [show after.2.engines = _ from hengines]
        exact List.getElem?_set_ne fun heq => hother (congrArg some heq)
      · rintro _ ⟨⟩
        refine ⟨before, now, hbefore, ?_, hbeside, hvalue⟩
        rw [show after.2.engines = _ from hengines]
        exact List.getElem?_set_self hlt

end Adapter

end StoreBench
