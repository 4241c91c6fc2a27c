import StoreBench.Proofs.Issuing
/-!
# Clients that load

A client in load mode performs its number of inserts and nothing else. Seen as a client it only has
to get through them; seen step by step it takes a number for each, and no more numbers than it has
inserts to perform. When it ends without an error it has inserted all of its records.
-/

namespace StoreBench

/-! ## As a client -/

namespace Client

/-- A client that loads: what it knows is how many records it has inserted and how many are left, or
nothing once an insert has failed. -/
def loading : Protocol clientCalls (Option (Nat × Nat)) where
  allows
    | known, .perform task _ => task = .insert ∧ ∃ done left, known = some (done, left + 1)
    | _, _ => True
  expects _ _ _ := True
  next
    | known, .perform _ _, answer => match known, answer.1 with
      | some (done, left + 1), .ok _ => some (done + 1, left)
      | _, _ => none
    | known, _, _ => known

/-- Whatever ends the client early is an error. -/
abbrev Follows {α : Type} (ends : Option (Nat × Nat) → α → Prop) (known : Option (Nat × Nat))
    (p : Attempt clientCalls α) : Prop :=
  p.Follows loading (fun _ => True) ends known

variable {c : Client} {known : Option (Nat × Nat)}

theorem follows_ask (call : ClientCall) (hcall : loading.allows known call)
    (hnext : ∀ answer, loading.next known call answer = known) :
    Follows (fun known' _ => known' = known) known (ask call) :=
  Attempt.follows_lift.2 (Program.follows_call.2 ⟨hcall, fun answer _ => hnext answer⟩)

/-- A request that may fail, if it is no task. -/
theorem follows_ask_ofExcept (call : ClientCall) (hcall : loading.allows known call)
    (hnext : ∀ answer, loading.next known call answer = known)
    (result : call.Answer → Except Failure Unit) :
    Follows (fun known' _ => known' = known) known
      (ask call >>= fun answer => Attempt.ofExcept (result answer)) := by
  refine Attempt.follows_bind.2 ((follows_ask call hcall hnext).imp ?_)
  rintro _ answer rfl
  exact Attempt.follows_ofExcept.2 ⟨fun _ _ => rfl, fun _ _ => trivial⟩

theorem follows_initAdapter : Follows (fun known' _ => known' = known) known initAdapter :=
  follows_ask_ofExcept .initAdapter trivial (fun _ => rfl) id

theorem follows_cleanAdapter : Follows (fun known' _ => known' = known) known cleanAdapter :=
  follows_ask_ofExcept .cleanAdapter trivial (fun _ => rfl) id

/-- An insert that does not fail counts. -/
theorem follows_insert (done left : Nat) (worker : Worker) :
    Follows (fun known _ => known = some (done + 1, left)) (some (done, left + 1))
      (perform .insert worker) := by
  refine Attempt.follows_bind.2 (Attempt.follows_lift.2 (Program.follows_call.2
    ⟨⟨rfl, done, left, rfl⟩, fun answer _ => ?_⟩))
  obtain ⟨result, worker⟩ := answer
  refine Attempt.follows_bind.2 (Attempt.follows_ofExcept.2 ⟨?_, fun _ _ => trivial⟩)
  rintro ok rfl
  rfl

theorem follows_work (hmode : c.mode = .load) (remaining done : Nat) (worker : Worker) :
    Follows (fun known count => known = some (count, 0) ∧ count = done + remaining)
      (some (done, remaining)) (c.work remaining done worker) := by
  induction remaining generalizing done worker with
  | zero => exact ⟨rfl, rfl⟩
  | succ remaining ih =>
    have hstop : c.shouldStop = pure false := by
      rw [shouldStop, hmode]
      rfl
    have hnext : ∀ (ok : Bool) worker, Follows
        (fun known count => known = some (count, 0) ∧ count = done + (remaining + 1))
        (some (done + 1, remaining))
        (if !ok then do
          Attempt.click .clientNotOk
          c.work remaining (done + 1) worker
        else c.work remaining (done + 1) worker) := by
      intro ok worker
      have hwork := (ih (done + 1) worker).imp fun known count hends =>
        (⟨hends.1, by omega⟩ : known = some (count, 0) ∧ count = done + (remaining + 1))
      cases ok <;> exact hwork
    have hperform : Follows
        (fun known count => known = some (count, 0) ∧ count = done + (remaining + 1))
        (some (done, remaining + 1))
        (do
          let inserted ← perform .insert worker
          Attempt.click .clientOperation
          if !inserted.1 then Attempt.click .clientNotOk
          c.work remaining (done + 1) inserted.2) := by
      refine Attempt.follows_bind.2 ((follows_insert done remaining worker).imp ?_)
      rintro _ ⟨ok, worker⟩ rfl
      exact hnext ok worker
    rw [work, hstop, pure_bind, hmode]
    simp only [Bool.false_eq_true, if_false]
    split
    · refine Attempt.follows_bind.2 ((follows_ask .takeToken trivial fun _ => rfl).imp ?_)
      rintro _ answer rfl
      exact hperform
    · exact hperform

theorem follows_session [Machine] (hmode : c.mode = .load) :
    Follows (fun known count => known = some (count, 0) ∧ count = c.ops) (some (0, c.ops))
      c.session := by
  refine Attempt.follows_bind.2
    (Attempt.follows_ofExcept.2 ⟨fun worker _ => ?_, fun _ _ => trivial⟩)
  have hwork : Follows (fun known count => known = some (count, 0) ∧ count = c.ops)
      (some (0, c.ops)) (do
        let done ← c.work c.ops 0 worker
        if c.cleansUp then cleanAdapter
        return done) := by
    refine Attempt.follows_bind.2 ((follows_work hmode c.ops 0 worker).imp ?_)
    rintro _ count ⟨rfl, hcount⟩
    rw [Nat.zero_add] at hcount
    split
    · refine Attempt.follows_bind.2 (follows_cleanAdapter.imp ?_)
      rintro _ _ rfl
      exact ⟨rfl, hcount⟩
    · exact ⟨rfl, hcount⟩
  by_cases hinit : c.initializes = true
  · simp only [hinit, if_true]
    refine Attempt.follows_bind.2 (follows_initAdapter.imp ?_)
    rintro _ _ rfl
    exact hwork
  · simp only [hinit]
    exact hwork

/-- What a client that loads knows at the end, if it has not failed. -/
def Loaded (c : Client) (known : Option (Nat × Nat)) (result : Except Failure Nat) : Prop :=
  ∀ count, result = .ok count → known = some (count, 0) ∧ count = c.ops

theorem follows_run [Machine] (hmode : c.mode = .load) :
    c.run.Follows loading c.Loaded (some (0, c.ops)) := by
  refine Program.follows_bind.2 (Program.Follows.imp (follows_session hmode) ?_)
  intro known result hends
  have hloaded : c.Loaded known result := by
    rintro count rfl
    exact hends
  split
  · exact hloaded
  · exact hloaded
  · exact Program.follows_bind.2 (Program.follows_call.2 ⟨trivial, fun _ _ => hloaded⟩)

theorem follows_runDetached [Machine] (hmode : c.mode = .load) :
    c.runDetached.Follows loading c.Loaded (some (0, c.ops)) := by
  refine Program.follows_bind.2 ((follows_run hmode).imp ?_)
  intro known result hloaded
  split <;> exact hloaded

end Client

/-! ## Step by step -/

/-- What a client that loads has before it: records that have no number yet, and the number it took
for one that is not inserted. -/
structure Backlog where
  left : Nat
  number : Option UInt64

namespace Backlog

variable (w : Workload)

/-- A client that loads takes a number while there are records left, and inserts a row under the key
of that number before it takes the next. -/
def loading : Protocol stepCalls Backlog where
  allows
    | backlog, .workload .takeNumber => backlog.number = none ∧ 0 < backlog.left
    | backlog, .workload (.perform op) => ∃ number row, backlog.number = some number ∧
        op = .insert (keyOf number) row ∧ w.IsRow row
    | _, .client (.perform _ _) => False
    | _, .client _ => True
    | _, .assumeLoaded => False
  expects _ _ _ := True
  next
    | backlog, .workload .takeNumber, number => ⟨backlog.left - 1, some number⟩
    | backlog, .workload (.perform _), .ok _ => ⟨backlog.left, none⟩
    | backlog, _, _ => backlog

/-- The backlog at a stage of inserting a record. An insert that failed leaves the number. -/
def At (left : Nat) : Workload.Stage → Backlog → Prop
  | .planning none, backlog => backlog = ⟨left + 1, none⟩
  | .planning (some number), backlog => backlog = ⟨left, some number⟩
  | .issued issued, backlog => ∀ value, issued.outcome = .ok value → backlog = ⟨left, none⟩

variable {w}

/-- An insert that succeeds is one record less. -/
theorem follows_insert [Machine] (left : Nat) (worker : Worker) :
    (w.steps .insert worker).Follows (loading w)
      (fun backlog result => ∀ ok, result.1 = .ok ok → backlog = ⟨left, none⟩)
      ⟨left + 1, none⟩ := by
  refine (Workload.follows_steps (R := At left) ?_ ?_ rfl worker).imp ?_
  · rintro _ rfl
    exact ⟨⟨rfl, Nat.succ_pos left⟩, fun number _ => rfl⟩
  · intro backlog number op hat hchosen hop
    cases op with
    | insert key row =>
      obtain ⟨⟨taken, rfl, rfl⟩, hrow, -⟩ := hop
      obtain rfl : backlog = ⟨left, some taken⟩ := hat
      refine ⟨⟨taken, row, rfl, rfl, hrow⟩, fun outcome _ value houtcome => ?_⟩
      cases outcome with
      | ok status => rfl
      | error failure => cases houtcome
    | _ => cases hchosen
  · rintro backlog result ⟨stage, hat, ⟨failure, hfailure, -⟩ | ⟨issued, rfl, hsuccess⟩⟩ ok hok
    · cases hfailure.symm.trans hok
    · cases houtcome : issued.outcome with
      | ok value => exact hat value houtcome
      | error failure =>
        rw [hsuccess, Workload.Issued.success, houtcome] at hok
        cases hok

/-- A client that ends without an error has inserted all of its records. -/
theorem follows_runDetached [Machine] {c : Client} (hmode : c.mode = .load) :
    (Caller.steps w (Client.asCaller c.runDetached)).Follows (loading w)
      (fun backlog result => ∀ count, result = .ok count → backlog = ⟨0, none⟩ ∧ count = c.ops)
      ⟨c.ops, none⟩ := by
  rw [Caller.steps_asCaller]
  refine Program.Follows.imp (Program.Follows.interpret
    (R := fun known backlog => ∀ done left, known = some (done, left) → backlog = ⟨left, none⟩)
    ?_ (Client.follows_runDetached hmode) ?_) ?_
  · intro known backlog call hallows hknown
    cases call with
    | perform task worker =>
      obtain ⟨rfl, done, left, rfl⟩ := hallows
      obtain rfl := hknown done (left + 1) rfl
      refine (follows_insert left worker).imp fun backlog answer hends => ⟨trivial, ?_⟩
      intro done' left' hnext
      cases hanswer : answer.1 with
      | ok ok =>
        simp only [Client.loading, hanswer] at hnext
        cases hnext
        exact hends ok hanswer
      | error failure =>
        simp only [Client.loading, hanswer] at hnext
        cases hnext
    | _ => exact ⟨trivial, fun _ _ => ⟨trivial, hknown⟩⟩
  · rintro done left ⟨⟩
    rfl
  · rintro backlog result ⟨known, hloaded, hknown⟩ count hcount
    obtain ⟨rfl, hops⟩ := hloaded count hcount
    exact ⟨hknown count 0 rfl, hops⟩

end Backlog

end StoreBench
