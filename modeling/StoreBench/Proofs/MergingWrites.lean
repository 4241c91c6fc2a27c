import StoreBench.Proofs.MergeRace
/-!
# Inserts and merging updates, call by call

What an adapter that merges its updates does with a history of inserts and updates: which call comes
next, given the answers so far, and which operations are done. An insert makes one call, unless its
row is too long to be encoded, and then it is refused and makes none. An update makes one call if
its key is absent, and otherwise a second, the merge. The last call of an operation alone does to
the engine what the whole operation does, as long as the key that an update found is still there.
-/

namespace StoreBench

variable {n : Nat} {key : Bytes}

/-- Whether an operation is an insert or an update. -/
def Operation.Writes : Operation → Prop
  | .insert .. | .update .. => True
  | _ => False

/-- What an answered insert or update makes of the row under a key. -/
def Exchange.onRow (key : Bytes) : Option Row → Exchange → Option Row
  | row, ⟨.insert written inserted, .ok .ok⟩ => if written = key then some inserted else row
  | row, ⟨.update written updates, .ok .ok⟩ =>
    if written = key then row.map (·.merge updates) else row
  | row, _ => row

/-- The call at which an answered insert or update takes effect or finds no row: the put of an
insert, the merge of an update, the get of an update without a row. -/
def Exchange.decisive? (i : Fin n) : Exchange → Option (Served keyValueCalls n)
  | ⟨.insert key row, .ok .ok⟩ => some ⟨i, .put key row.bytes, .ok ()⟩
  | ⟨.update key updates, .ok .ok⟩ => some ⟨i, .merge key updates.bytes, .ok ()⟩
  | ⟨.update key _, .ok .notFound⟩ => some ⟨i, .get key, .ok none⟩
  | _ => none

/-- Whether a served call is a put, a merge or a get without a row. -/
def Served.isDecisive : Served keyValueCalls n → Bool
  | ⟨_, .put .., _⟩ | ⟨_, .merge .., _⟩ | ⟨_, .get _, .ok none⟩ => true
  | _ => false

/-- Take down what an operation of the format comes to on an engine. -/
def SchemalessFormat.exchange (f : SchemalessFormat) (op : Operation) :
    StateM KeyValueEngine Exchange := fun e =>
  (⟨op, (e.run (f.perform op)).1⟩, (e.run (f.perform op)).2)

/-! ## Progress -/

/-- How far an adapter is in a history: what is done, the key its current update found, and what is
left, the current operation included. -/
structure WriteProgress where
  done : List Exchange
  found : Option Bytes
  rest : List Operation

namespace WriteProgress

variable {k : WriteProgress} {call : KeyValueCall} {done : List Exchange} {rest : List Operation}

/-- Go on to the first operation that makes a call. Inserts that cannot be encoded are done before
it, refused. -/
def settle (done : List Exchange) : List Operation → WriteProgress
  | .insert key row :: rest =>
    match row.encode? with
    | .ok _ => ⟨done, none, .insert key row :: rest⟩
    | .error cause =>
      settle (done ++ [⟨.insert key row, .error (.raised (.invalidArgument cause))⟩]) rest
  | rest => ⟨done, none, rest⟩

/-- Go on after the answer to a call. -/
def next (k : WriteProgress) : (call : KeyValueCall) → Except Failure call.Result → WriteProgress :=
  match k.rest with
  | .insert key row :: rest => fun _ _ => settle (k.done ++ [⟨.insert key row, .ok .ok⟩]) rest
  | .update key updates :: rest => fun
    | .get _, .ok (some _) =>
      match updates.encode? with
      | .ok _ => ⟨k.done, some key, .update key updates :: rest⟩
      | .error cause =>
        settle (k.done ++ [⟨.update key updates, .error (.raised (.invalidArgument cause))⟩]) rest
    | .get _, _ => settle (k.done ++ [⟨.update key updates, .ok .notFound⟩]) rest
    | _, _ => settle (k.done ++ [⟨.update key updates, .ok .ok⟩]) rest
  | _ => fun _ _ => k

/-- The call that comes next. -/
inductive Calls : WriteProgress → KeyValueCall → Prop where
  | put {done : List Exchange} {found : Option Bytes} {key : Bytes} {row : Row}
    {rest : List Operation} (hrow : row.Encodable) :
    Calls ⟨done, found, .insert key row :: rest⟩ (.put key row.bytes)
  | get {done : List Exchange} {key : Bytes} {updates : Row} {rest : List Operation} :
    Calls ⟨done, none, .update key updates :: rest⟩ (.get key)
  | merge {done : List Exchange} {key : Bytes} {updates : Row} {rest : List Operation}
    (hupdates : updates.Encodable) :
    Calls ⟨done, some key, .update key updates :: rest⟩ (.merge key updates.bytes)

/-- The history as a whole. -/
def history (k : WriteProgress) : List Operation := k.done.map Exchange.op ++ k.rest

end WriteProgress

/-- The adapter makes the calls of its history in order. None of them fails. -/
def writing : Protocol keyValueCalls WriteProgress where
  allows := WriteProgress.Calls
  expects _
    | .get _, answer => ∃ found, answer = .ok found
    | .put .., answer | .merge .., answer => answer = .ok ()
    | _, _ => True
  next := WriteProgress.next

/-- An insert that was refused before it made a call. -/
def Exchange.Refused (x : Exchange) : Prop :=
  ∃ key row cause, Row.encode? row = .error cause ∧
    x = ⟨.insert key row, .error (.raised (.invalidArgument cause))⟩

namespace WriteProgress

variable {done : List Exchange}

theorem settle_insert_encodable {row : Row} {rest : List Operation} (hrow : row.Encodable) :
    settle done (.insert key row :: rest) = ⟨done, none, .insert key row :: rest⟩ := by
  rw [settle, Row.encode?_eq_bytes hrow]

theorem settle_insert_refused {row : Row} {rest : List Operation} {cause : BadArgument}
    (hrow : row.encode? = .error cause) :
    settle done (.insert key row :: rest) =
      settle (done ++ [⟨.insert key row, .error (.raised (.invalidArgument cause))⟩]) rest := by
  rw [settle, hrow]

/-- To settle is to have some inserts refused. -/
theorem exists_settle (done : List Exchange) (rest : List Operation) :
    ∃ refused : List Exchange, (∀ x ∈ refused, x.Refused) ∧
      (settle done rest).done = done ++ refused ∧ (settle done rest).found = none ∧
      (settle done rest).history = done.map Exchange.op ++ rest := by
  fun_induction settle done rest with
  | case1 done key row rest bytes hencode =>
    exact ⟨[], by simp, by simp, rfl, rfl⟩
  | case2 done key row rest cause hencode ih =>
    obtain ⟨refused, hrefused, hdone, hfound, hhistory⟩ := ih
    refine ⟨⟨.insert key row, .error (.raised (.invalidArgument cause))⟩ :: refused, ?_, ?_, hfound,
      ?_⟩
    · exact List.forall_mem_cons.2 ⟨⟨key, row, cause, hencode, rfl⟩, hrefused⟩
    · rw [hdone, List.append_assoc, List.singleton_append]
    · rw [hhistory, List.map_append, List.append_assoc]
      rfl
  | case3 done rest hrest =>
    exact ⟨[], by simp, by simp, rfl, rfl⟩

end WriteProgress

/-! ## Operations as a whole -/

namespace SchemalessFormat

variable (f : SchemalessFormat) {e : KeyValueEngine} {t : Table} (h : e.Holds t)

theorem run_exchange (op : Operation) (e : KeyValueEngine) :
    (f.exchange op).run e = (⟨op, (e.run (f.perform op)).1⟩, (e.run (f.perform op)).2) := rfl

theorem run_exchange_insert_refused {row : Row} {cause : BadArgument}
    (hrow : row.encode? = .error cause) :
    (f.exchange (.insert key row)).run e =
      (⟨.insert key row, .error (.raised (.invalidArgument cause))⟩, e) := by
  simp only [run_exchange, perform, run_insert_refused hrow]

include h

theorem run_exchange_insert {row : Row} (hrow : row.Encodable) :
    (f.exchange (.insert key row)).run e = (⟨.insert key row, .ok .ok⟩, e.store key row.bytes) := by
  simp only [run_exchange, perform, run_insert h hrow]

theorem run_exchange_update_absent (hkey : t[key]? = none) (updates : Row) :
    (f.exchange (.update key updates)).run e = (⟨.update key updates, .ok .notFound⟩, e) := by
  simp only [run_exchange, perform, f.run_update_absent h hkey]

variable {f} {row updates : Row} (hrow : t[key]? = some row) (hmerges : f.mergesUpdates = true)

include hrow hmerges

theorem run_exchange_update_merged (hmerge : e.mergeOperator = some Row.mergeEncoded)
    (hupdates : updates.Encodable) :
    (f.exchange (.update key updates)).run e =
      (⟨.update key updates, .ok .ok⟩, e.store key (row.merge updates).bytes) := by
  simp only [run_exchange, perform, update, if_pos hmerges, run_mergeUpdate h hrow hmerge hupdates]

theorem run_exchange_update_refused {cause : BadArgument}
    (hupdates : updates.encode? = .error cause) :
    (f.exchange (.update key updates)).run e =
      (⟨.update key updates, .error (.raised (.invalidArgument cause))⟩, e) := by
  simp only [run_exchange, perform, update, if_pos hmerges, run_mergeUpdate_refused h hrow hupdates]

end SchemalessFormat

/-! ## The calls of a history -/

namespace SchemalessFormat

variable {f : SchemalessFormat} {done : List Exchange} {rest : List Operation}

/-- What an insert calls, and what it is answered. -/
theorem follows_insert_writing {row : Row} {ends : WriteProgress → Except Failure Status → Prop}
    (hok : ends (.settle (done ++ [⟨.insert key row, .ok .ok⟩]) rest) (.ok .ok))
    (hrefused : ∀ cause, row.encode? = .error cause →
      ends (.settle done (.insert key row :: rest)) (.error (.raised (.invalidArgument cause)))) :
    (insert key row).run.Follows writing ends (.settle done (.insert key row :: rest)) := by
  show ((Row.encode row : Program keyValueCalls _) >>= _ >>= _).Follows _ _ _
  rw [Program.follows_bind, Program.follows_bind, Row.follows_encode]
  cases hencode : row.encode? with
  | error cause => exact hrefused cause hencode
  | ok value =>
    obtain ⟨hrow, rfl⟩ := Row.encode?_eq_ok_iff.1 hencode
    rw [WriteProgress.settle_insert_encodable hrow]
    refine ⟨WriteProgress.Calls.put hrow, ?_⟩
    intro answer hanswer
    obtain rfl : answer = .ok () := hanswer
    exact hok

/-- What a merging update calls, and what it is answered. -/
theorem follows_mergeUpdate_writing {updates : Row}
    {ends : WriteProgress → Except Failure Status → Prop}
    (habsent : ends (.settle (done ++ [⟨.update key updates, .ok .notFound⟩]) rest) (.ok .notFound))
    (hok : ends (.settle (done ++ [⟨.update key updates, .ok .ok⟩]) rest) (.ok .ok))
    (hrefused : ∀ cause, updates.encode? = .error cause →
      ends (.settle (done ++ [⟨.update key updates, .error (.raised (.invalidArgument cause))⟩])
        rest) (.error (.raised (.invalidArgument cause)))) :
    (mergeUpdate key updates).run.Follows writing ends
      ⟨done, none, .update key updates :: rest⟩ := by
  refine ⟨WriteProgress.Calls.get, ?_⟩
  intro answer hanswer
  obtain ⟨found, rfl⟩ : ∃ found, answer = .ok found := hanswer
  cases found with
  | none => exact habsent
  | some value =>
    show ((Row.encode updates : Program keyValueCalls _) >>= _ >>= _).Follows _ _ _
    rw [Program.follows_bind, Program.follows_bind, Row.follows_encode]
    simp only [writing, WriteProgress.next]
    cases hencode : updates.encode? with
    | error cause => exact hrefused cause hencode
    | ok operand =>
      obtain ⟨hupdates, rfl⟩ := Row.encode?_eq_ok_iff.1 hencode
      refine ⟨WriteProgress.Calls.merge hupdates, ?_⟩
      intro answer hanswer
      obtain rfl : answer = .ok () := hanswer
      exact hok

/-- An adapter that merges its updates makes the calls of its history in order, and what it has done
at the end is what the history is answered. -/
theorem follows_mapM_writing (hmerges : f.mergesUpdates = true) {history : List Operation}
    (hwrites : ∀ op ∈ history, op.Writes) (done : List Exchange) :
    (history.mapM fun op => (f.perform op).run >>= fun answer => pure ⟨op, answer⟩).Follows writing
      (fun k exchanges => k.rest = [] ∧ k.done = done ++ exchanges) (.settle done history) := by
  induction history generalizing done with
  | nil => simp [WriteProgress.settle]
  | cons op history ih =>
    obtain ⟨hop, hrest⟩ := List.forall_mem_cons.1 hwrites
    -- Once the operation is answered, the rest of the history follows from there.
    have hcontinue : ∀ answer,
        ((history.mapM fun op => (f.perform op).run >>= fun answer => pure ⟨op, answer⟩) >>=
          fun xs => pure (⟨op, answer⟩ :: xs)).Follows writing
            (fun k exchanges => k.rest = [] ∧ k.done = done ++ exchanges)
            (.settle (done ++ [⟨op, answer⟩]) history) := by
      intro answer
      refine Program.follows_bind.2 ((ih hrest _).imp ?_)
      rintro k exchanges ⟨hover, hdone⟩
      rw [List.append_assoc, List.singleton_append] at hdone
      exact ⟨hover, hdone⟩
    rw [List.mapM_cons, bind_assoc, Program.follows_bind]
    cases op with
    | insert key row =>
      refine follows_insert_writing (hcontinue _) ?_
      intro cause hencode
      rw [WriteProgress.settle_insert_refused hencode]
      exact hcontinue _
    | update key updates =>
      rw [perform, update, if_pos hmerges]
      exact follows_mergeUpdate_writing (hcontinue _) (hcontinue _) fun _ _ => hcontinue _
    | _ => exact hop.elim

end SchemalessFormat

end StoreBench
