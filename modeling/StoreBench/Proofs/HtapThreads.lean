import StoreBench.Benchmark
import StoreBench.Proofs.ClientCalls
/-!
# Analytic beside transactional threads

The third phase as threads that take turns in any order: the main thread, which starts the others
and waits for them, the timer of the time limit, the analytic clients and the transactional ones.
The main thread waits on the latch of the analytic clients and then raises the flag at which the
transactional ones stop, so a transactional client ends before the last analytic one only if it has
issued all of its operations.
-/

namespace StoreBench

/-! ## What members of a crew were answered -/

namespace Crew

variable {ι : Interface} {α κ σ : Type} {n : Nat}
  {answer : Fin n → (request : ι.Request) → σ → ι.Answer request × σ} {c : Crew ι α σ n} {i : Fin n}

/-- What a member asked and was answered. -/
def logOf (c : Crew ι α σ n) (i : Fin n) : List (Answered ι) :=
  (c.log.filter (·.member = i)).map fun x => ⟨x.request, x.answer⟩

@[simp] theorem logOf_start (members : Fin n → Program ι α) (s : σ) (i : Fin n) :
    (start members s).logOf i = [] := rfl

theorem logOf_turn_self {request : ι.Request} {rest : ι.Answer request → Program ι α}
    (h : (c.members i).pending = .inr ⟨request, rest⟩) :
    (c.turn answer i).logOf i = c.logOf i ++ [⟨request, (answer i request c.shared).1⟩] := by
  rw [turn_of_pending_inr h]
  simp [logOf]

theorem logOf_turn_of_ne {j : Fin n} (hj : j ≠ i) : (c.turn answer i).logOf j = c.logOf j := by
  cases h : (c.members i).pending with
  | inl a => rw [turn_of_pending_inl h]
  | inr next =>
    rw [turn_of_pending_inr h]
    simp [logOf, Ne.symm hj]

theorem members_turn_of_ne {j : Fin n} (hj : j ≠ i) :
    (c.turn answer i).members j = c.members j := by
  cases h : (c.members i).pending with
  | inl a => rw [turn_of_pending_inl h]
  | inr next =>
    rw [turn_of_pending_inr h]
    exact Function.update_of_ne hj _ _

variable {P : Protocol ι κ} {ends : Fin n → κ → α → Prop} {k : κ}

/-- Where every answer is expected, each member goes on as its protocol tells after what the member
was answered. -/
theorem follows_turn (hexpects : ∀ k request answer, P.expects k request answer)
    (h : ∀ i, (c.members i).Follows P (ends i) (P.after k (c.logOf i))) (i : Fin n) :
    ∀ j, ((c.turn answer i).members j).Follows P (ends j)
      (P.after k ((c.turn answer i).logOf j)) := by
  intro j
  by_cases hj : j = i
  · subst hj
    cases hpending : (c.members j).pending with
    | inl a =>
      rw [turn_of_pending_inl hpending]
      exact h j
    | inr next =>
      obtain ⟨request, rest⟩ := next
      have hnext := ((h j).of_pending_inr hpending).2 _ (hexpects _ _ (answer j request c.shared).1)
      rw [logOf_turn_self hpending, turn_of_pending_inr hpending, Protocol.after_concat]
      simpa using hnext
  · rw [logOf_turn_of_ne hj, members_turn_of_ne hj]
    exact h j

end Crew

/-! ## What clients were answered -/

namespace Client

/-- Whether a client counted its latch down. -/
def countsDown : Answered clientCalls → Bool
  | ⟨.countDown, _⟩ => true
  | _ => false

/-- Whether a client saw a raised flag. -/
def seesFlag : Answered clientCalls → Bool
  | ⟨.poll _, raised⟩ => raised
  | _ => false

theorem counting_after (counted : Bool) (log : List (Answered clientCalls)) :
    counting.after counted log = (counted || log.any countsDown) := by
  induction log generalizing counted with
  | nil => simp [Protocol.after]
  | cons x log ih =>
    have hstep : counting.next counted x.request x.answer = (counted || countsDown x) := by
      obtain ⟨request, answer⟩ := x
      cases request <;> cases counted <;> rfl
    rw [List.any_cons, ← Bool.or_assoc, ← hstep]
    exact ih _

/-- A thread ends as its client does. -/
theorem follows_runDetached_of_run [Machine] {κ : Type} {P : Protocol clientCalls κ} {c : Client}
    {k : κ} {ends : κ → Except Failure Nat → Prop} (h : c.run.Follows P ends k) :
    c.runDetached.Follows P ends k := by
  refine Program.follows_bind.2 (h.imp ?_)
  intro known result hends
  split <;> exact hends

/-- A client without an error returns the number of tasks that it has issued: all that it has, or
it has seen a raised flag. -/
theorem follows_run_recalling [Machine] (c : Client) :
    c.run.Follows .recalling (fun log result => ∀ performed, result = .ok performed →
      (outcomes log).length = performed ∧ (performed = c.ops ∨ log.any seesFlag = true)) [] := by
  refine .of_traces_after (fun _ _ => trivial) ?_
  rintro events log result htraces performed rfl
  obtain ⟨calls, rfl, hsession⟩ := traces_run htraces
  have hcalls := (traces_session hsession).1
  rw [Protocol.recalling_after, List.nil_append, outcomes_append, outcomes_farewell,
    List.append_nil, List.any_append]
  refine ⟨hcalls.length_outcomes, ?_⟩
  cases hcalls with
  | finished hworker hending =>
    cases hending with
    | all hall => exact .inl hall
    | flagged hlt hflag => exact .inr (by simp [seesFlag])

end Client

open Client

/-! ## Threads -/

/-- The thread that waits for the time limit. -/
inductive Timer where
  | absent
  /-- There is no time so late that the limit is over. -/
  | failed
  | waiting
  /-- The limit was over while analytic clients were under way. -/
  | expired
  /-- The flag is raised. -/
  | raised
  /-- The analytic clients were done before. -/
  | idle
  deriving DecidableEq

/-- The timer of a limit; none if it is zero. -/
def Timer.ofLimit (limit : Nat) : Timer :=
  if limit = 0 then .absent else if Benchmark.HasDeadline limit then .waiting else .failed

/-- How far the main thread is. -/
inductive MainStage where
  | startAnalytic (started : Nat)
  | startTransactional (started : Nat)
  | startTimer
  | awaitAnalytic
  | raiseDone
  | awaitTransactional
  | joinTimer
  | ended
  /-- The timer has failed, and the process is gone. -/
  | aborted
  deriving DecidableEq

/-- Whether the analytic client with an index has been started. -/
def MainStage.hasAnalytic : MainStage → Nat → Bool
  | startAnalytic started, i => i < started
  | _, _ => true

/-- Whether the transactional client with an index has been started. -/
def MainStage.hasTransactional : MainStage → Nat → Bool
  | startAnalytic _, _ => false
  | startTransactional started, j => j < started
  | _, _ => true

/-- Clients with the latch they share and the flag they listen to. -/
abbrev ClientThreads (n : Nat) := Crew clientCalls (Except Failure Nat) (Latch × Bool) n

/-- The threads of the phase. -/
structure HtapThreads (a t : Nat) where
  stage : MainStage
  timer : Timer
  /-- Their flag is the one of the time limit. -/
  analytic : ClientThreads a
  /-- Their flag says that the analytic clients are done. -/
  transactional : ClientThreads t

/-- Whose turn it is. The timer may find that its limit is over; clients are answered by the rest of
the process what it likes. -/
inductive Turn (a t : Nat) where
  | main
  | timer (elapsed : Bool)
  | analytic (i : Fin a) (reply : (call : ClientCall) → call.Answer)
  | transactional (j : Fin t) (reply : (call : ClientCall) → call.Answer)

/-- The answers to a client that listens to one flag. -/
def heard (own : Flag) (reply : (call : ClientCall) → call.Answer) :
    (call : ClientCall) → Bool → call.Answer × Bool
  | .poll flag, raised => (flag = own && raised, raised)
  | call, raised => (reply call, raised)

/-- One call of a client that listens to a flag. -/
def ClientThreads.turn {n : Nat} (c : ClientThreads n) (own : Flag) (i : Fin n)
    (reply : (call : ClientCall) → call.Answer) : ClientThreads n :=
  Crew.turn (latched fun _ => heard own reply) c i

/-- Raise the flag the clients listen to. -/
def ClientThreads.raise {n : Nat} (c : ClientThreads n) : ClientThreads n :=
  { c with shared := (c.shared.1, true) }

namespace HtapThreads

variable {a t : Nat}

/-- Whether the flag of the time limit is raised. -/
def timeLimit (s : HtapThreads a t) : Bool := s.analytic.shared.2

/-- Whether the flag that says the analytic clients are done is raised. -/
def analyticDone (s : HtapThreads a t) : Bool := s.transactional.shared.2

/-- The latch of the analytic clients. -/
def analyticLatch (s : HtapThreads a t) : Latch := s.analytic.shared.1

def turnMain (limit : Nat) (s : HtapThreads a t) : HtapThreads a t :=
  match s.stage with
  | .startAnalytic started =>
    { s with stage := if started < a then .startAnalytic (started + 1) else .startTransactional 0 }
  | .startTransactional started =>
    { s with stage := if started < t then .startTransactional (started + 1) else .startTimer }
  | .startTimer => { s with stage := .awaitAnalytic, timer := .ofLimit limit }
  | .awaitAnalytic => if s.analyticLatch.isOpen then { s with stage := .raiseDone } else s
  | .raiseDone => { s with stage := .awaitTransactional, transactional := s.transactional.raise }
  | .awaitTransactional =>
    if s.transactional.shared.1.isOpen then { s with stage := .joinTimer } else s
  | .joinTimer =>
    match s.timer with
    | .waiting | .expired => s
    | .failed => { s with stage := .aborted }
    | .absent | .raised | .idle => { s with stage := .ended }
  | .ended | .aborted => s

def turnTimer (elapsed : Bool) (s : HtapThreads a t) : HtapThreads a t :=
  match s.timer with
  | .waiting =>
    if s.analyticLatch.isOpen then { s with timer := .idle }
    else if elapsed then { s with timer := .expired }
    else s
  | .expired => { s with timer := .raised, analytic := s.analytic.raise }
  | .absent | .failed | .raised | .idle => s

/-- One turn. A thread that waits, or has not been started, does nothing. -/
def turn (limit : Nat) (s : HtapThreads a t) : Turn a t → HtapThreads a t
  | .main => s.turnMain limit
  | .timer elapsed => s.turnTimer elapsed
  | .analytic i reply =>
    if s.stage.hasAnalytic i then { s with analytic := s.analytic.turn .timeLimit i reply } else s
  | .transactional j reply =>
    if s.stage.hasTransactional j then
      { s with transactional := s.transactional.turn .analyticDone j reply }
    else s

/-- Let the threads take turns in the order of a schedule. -/
def run (limit : Nat) (s : HtapThreads a t) (schedule : List (Turn a t)) : HtapThreads a t :=
  schedule.foldl (turn limit) s

theorem run_append (limit : Nat) (s : HtapThreads a t) (before after : List (Turn a t)) :
    s.run limit (before ++ after) = (s.run limit before).run limit after := List.foldl_append

end HtapThreads

/-- The threads of the phase before the first one is started. -/
def Benchmark.htapThreads [Machine] (o : BenchmarkOptions) (total : Nat)
    (limiters : Fin (threadCount o) → Option RateLimiter) :
    HtapThreads (analyticCount o) (threadCount o) where
  stage := .startAnalytic 0
  timer := .absent
  analytic := .start (fun i => (analyticClient o total i).runDetached) (⟨analyticCount o⟩, false)
  transactional := .start (fun j => (transactionalClient o (limiters j) j).runDetached)
    (⟨threadCount o⟩, false)

/-! ## One turn -/

namespace ClientThreads

variable {n : Nat} (c : ClientThreads n) (own : Flag) (i : Fin n)
  (reply : (call : ClientCall) → call.Answer)

/-- A client leaves the flag alone, and its latch does not close again. -/
theorem shared_turn :
    (c.turn own i reply).shared.2 = c.shared.2 ∧
      (c.turn own i reply).shared.1.count ≤ c.shared.1.count := by
  cases h : (Crew.members c i).pending with
  | inl result =>
    rw [turn, Crew.turn_of_pending_inl h]
    exact ⟨rfl, le_rfl⟩
  | inr next =>
    obtain ⟨call, rest⟩ := next
    rw [turn, Crew.turn_of_pending_inr h]
    cases call with
    | countDown => exact ⟨rfl, Nat.sub_le _ _⟩
    | _ => exact ⟨rfl, le_rfl⟩

/-- A client sees a raised flag only when the flag is raised. -/
theorem seesFlag_turn {j : Fin n} (h : ((c.turn own i reply).logOf j).any seesFlag = true) :
    (Crew.logOf c j).any seesFlag = true ∨ c.shared.2 = true := by
  by_cases hj : j = i
  · subst hj
    cases hpending : (Crew.members c j).pending with
    | inl result =>
      rw [turn, Crew.turn_of_pending_inl hpending] at h
      exact .inl h
    | inr next =>
      obtain ⟨call, rest⟩ := next
      rw [turn, Crew.logOf_turn_self hpending, List.any_append, Bool.or_eq_true] at h
      refine h.imp id fun hlast => ?_
      cases call with
      | poll flag =>
        have hseen : (flag = own && c.shared.2) = true := by
          simpa only [List.any_cons, List.any_nil, Bool.or_false, seesFlag, latched, heard]
            using hlast
        exact (Bool.and_eq_true_iff.1 hseen).2
      | _ => simp [seesFlag] at hlast
  · rw [turn, Crew.logOf_turn_of_ne hj] at h
    exact .inl h

end ClientThreads

namespace HtapThreads

variable {a t : Nat} {s : HtapThreads a t}

/-- The main thread raises the flag of the transactional clients, or it goes on, to raise it next
only after the latch of the analytic clients is open. -/
theorem turnMain_cases (limit : Nat) (s : HtapThreads a t) :
    (s.stage = .raiseDone ∧ s.turnMain limit =
      { s with stage := .awaitTransactional, transactional := s.transactional.raise }) ∨
    ∃ stage timer, s.turnMain limit = { s with stage, timer } ∧
      (stage = .raiseDone → s.analyticLatch.count = 0) ∧
      (timer = .expired → s.timer = .expired) := by
  obtain ⟨stage, timer, analytic, transactional⟩ := s
  cases stage with
  | startAnalytic started => exact .inr ⟨_, timer, rfl, by split <;> nofun, id⟩
  | startTransactional started => exact .inr ⟨_, timer, rfl, by split <;> nofun, id⟩
  | startTimer =>
    refine .inr ⟨.awaitAnalytic, .ofLimit limit, rfl, nofun, fun h => ?_⟩
    unfold Timer.ofLimit at h
    split at h
    · cases h
    · split at h <;> cases h
  | awaitAnalytic =>
    by_cases hopen : analytic.shared.1.isOpen
    · exact .inr ⟨.raiseDone, timer, if_pos hopen, fun _ => (Latch.isOpen_iff _).1 hopen, id⟩
    · exact .inr ⟨.awaitAnalytic, timer, if_neg hopen, nofun, id⟩
  | raiseDone => exact .inl ⟨rfl, rfl⟩
  | awaitTransactional =>
    by_cases hopen : transactional.shared.1.isOpen
    · exact .inr ⟨.joinTimer, timer, if_pos hopen, nofun, id⟩
    · exact .inr ⟨.awaitTransactional, timer, if_neg hopen, nofun, id⟩
  | joinTimer =>
    cases timer with
    | waiting | expired => exact .inr ⟨.joinTimer, _, rfl, nofun, id⟩
    | failed => exact .inr ⟨.aborted, .failed, rfl, nofun, id⟩
    | absent | raised | idle => exact .inr ⟨.ended, _, rfl, nofun, id⟩
  | ended => exact .inr ⟨.ended, timer, rfl, nofun, id⟩
  | aborted => exact .inr ⟨.aborted, timer, rfl, nofun, id⟩

/-- The timer raises the flag of the analytic clients after it found the limit over, or it goes on,
and it finds that only while analytic clients are under way. -/
theorem turnTimer_cases (elapsed : Bool) (s : HtapThreads a t) :
    (s.timer = .expired ∧
      s.turnTimer elapsed = { s with timer := .raised, analytic := s.analytic.raise }) ∨
    ∃ timer, s.turnTimer elapsed = { s with timer } ∧
      (timer = .expired → elapsed = true ∧ s.timer = .waiting ∧ 0 < s.analyticLatch.count) := by
  obtain ⟨stage, timer, analytic, transactional⟩ := s
  cases timer with
  | waiting =>
    by_cases hopen : analytic.shared.1.isOpen
    · exact .inr ⟨.idle, if_pos hopen, nofun⟩
    · have hpos : 0 < analytic.shared.1.count := by
        rw [Latch.isOpen_iff] at hopen
        omega
      cases elapsed with
      | true => exact .inr ⟨.expired, if_neg hopen, fun _ => ⟨rfl, rfl, hpos⟩⟩
      | false => exact .inr ⟨.waiting, if_neg hopen, nofun⟩
  | expired => exact .inl ⟨rfl, rfl⟩
  | absent | failed | raised | idle => exact .inr ⟨_, rfl, nofun⟩

/-- What holds between any two turns: the analytic clients count down once, the transactional ones
stop for the flag alone, and the flag is raised after the analytic clients are done. -/
structure Orderly (s : HtapThreads a t) : Prop where
  counts : Counts s.analytic
  follows_counting : ∀ i, (s.analytic.members i).Follows counting
    (fun counted result => hasAnswer result = counted) (counting.after false (s.analytic.logOf i))
  follows_recalling : ∀ j, (s.transactional.members j).Follows .recalling
    (fun log result => ∀ performed, result = .ok performed → (outcomes log).length = performed ∧
      (performed = UInt64.size - 1 ∨ log.any seesFlag = true))
    (Protocol.recalling.after [] (s.transactional.logOf j))
  done_of_seen : ∀ j, (s.transactional.logOf j).any seesFlag = true → s.analyticDone = true
  open_of_stage : s.stage = .raiseDone → s.analyticLatch.count = 0
  open_of_done : s.analyticDone = true → s.analyticLatch.count = 0

namespace Orderly

theorem turnMain (h : s.Orderly) (limit : Nat) : (s.turnMain limit).Orderly := by
  rcases turnMain_cases limit s with ⟨hstage, hturn⟩ | ⟨stage, timer, hturn, hstage, -⟩
  · rw [hturn]
    exact ⟨h.counts, h.follows_counting, h.follows_recalling, fun _ _ => rfl, nofun,
      fun _ => h.open_of_stage hstage⟩
  · rw [hturn]
    exact ⟨h.counts, h.follows_counting, h.follows_recalling, h.done_of_seen, hstage,
      h.open_of_done⟩

theorem turnTimer (h : s.Orderly) (elapsed : Bool) : (s.turnTimer elapsed).Orderly := by
  rcases turnTimer_cases elapsed s with ⟨-, hturn⟩ | ⟨timer, hturn, -⟩
  all_goals
    rw [hturn]
    exact ⟨h.counts, h.follows_counting, h.follows_recalling, h.done_of_seen, h.open_of_stage,
      h.open_of_done⟩

theorem turnAnalytic (h : s.Orderly) (i : Fin a) (reply : (call : ClientCall) → call.Answer) :
    Orderly { s with analytic := s.analytic.turn .timeLimit i reply } := by
  obtain ⟨-, hcount⟩ := s.analytic.shared_turn .timeLimit i reply
  have hopen : s.analyticLatch.count = 0 →
      (s.analytic.turn .timeLimit i reply).shared.1.count = 0 := by
    intro hzero
    rw [analyticLatch] at hzero
    omega
  exact ⟨counts_turn h.counts i, Crew.follows_turn (fun _ _ _ => trivial) h.follows_counting i,
    h.follows_recalling, h.done_of_seen, fun hstage => hopen (h.open_of_stage hstage),
    fun hdone => hopen (h.open_of_done hdone)⟩

theorem turnTransactional (h : s.Orderly) (j : Fin t)
    (reply : (call : ClientCall) → call.Answer) :
    Orderly { s with transactional := s.transactional.turn .analyticDone j reply } := by
  obtain ⟨hflag, -⟩ := s.transactional.shared_turn .analyticDone j reply
  refine ⟨h.counts, h.follows_counting,
    Crew.follows_turn (fun _ _ _ => trivial) h.follows_recalling j, ?_, h.open_of_stage, ?_⟩
  · intro k hseen
    refine hflag.trans ?_
    rcases s.transactional.seesFlag_turn .analyticDone j reply hseen with hbefore | hraised
    · exact h.done_of_seen k hbefore
    · exact hraised
  · intro hdone
    exact h.open_of_done (hflag.symm.trans hdone)

theorem turn (h : s.Orderly) (limit : Nat) (next : Turn a t) : (s.turn limit next).Orderly := by
  cases next with
  | main => exact h.turnMain limit
  | timer elapsed => exact h.turnTimer elapsed
  | analytic i reply =>
    rw [HtapThreads.turn]
    split
    · exact h.turnAnalytic i reply
    · exact h
  | transactional j reply =>
    rw [HtapThreads.turn]
    split
    · exact h.turnTransactional j reply
    · exact h

theorem run (h : s.Orderly) (limit : Nat) (schedule : List (Turn a t)) :
    (s.run limit schedule).Orderly := by
  induction schedule generalizing s with
  | nil => exact h
  | cons next schedule ih => exact ih (h.turn limit next)

end Orderly

/-! ## The time limit -/

/-- Whether the timer has found the limit over. -/
def Expired (s : HtapThreads a t) : Prop := s.timer = .expired ∨ s.timeLimit = true

/-- The timer finds the limit over in one of its own turns, while analytic clients are under way. -/
theorem expired_of_turn {limit : Nat} {next : Turn a t} (h : (s.turn limit next).Expired) :
    s.Expired ∨ next = .timer true ∧ s.timer = .waiting ∧ 0 < s.analyticLatch.count := by
  cases next with
  | main =>
    rw [turn] at h
    rcases turnMain_cases limit s with ⟨-, hturn⟩ | ⟨stage, timer, hturn, -, htimer⟩
    · rw [hturn] at h
      exact .inl h
    · rw [hturn] at h
      exact .inl (h.imp htimer id)
  | timer elapsed =>
    rw [turn] at h
    rcases turnTimer_cases elapsed s with ⟨htimer, -⟩ | ⟨timer, hturn, htimer⟩
    · exact .inl (.inl htimer)
    · rw [hturn] at h
      rcases h with hexpired | hraised
      · obtain ⟨rfl, hwaiting, hpos⟩ := htimer hexpired
        exact .inr ⟨rfl, hwaiting, hpos⟩
      · exact .inl (.inr hraised)
  | analytic i reply =>
    rw [turn] at h
    split at h
    · refine .inl (h.imp id fun hraised => ?_)
      exact (s.analytic.shared_turn .timeLimit i reply).1.symm.trans hraised
    · exact .inl h
  | transactional j reply =>
    rw [turn] at h
    split at h <;> exact .inl h

/-- Where the limit was found over, it was so in one of the turns. -/
theorem exists_timeout {limit : Nat} (hstart : ¬ s.Expired) (schedule : List (Turn a t))
    (h : (s.run limit schedule).Expired) :
    ∃ before after, schedule = before ++ .timer true :: after ∧
      (s.run limit before).timer = .waiting ∧ 0 < (s.run limit before).analyticLatch.count := by
  induction schedule using List.reverseRecOn with
  | nil => exact absurd h hstart
  | append_singleton before next ih =>
    rw [run_append] at h
    rcases expired_of_turn h with hbefore | ⟨rfl, hwaiting, hpos⟩
    · obtain ⟨first, rest, rfl, htimeout⟩ := ih hbefore
      exact ⟨first, rest ++ [next], by simp, htimeout⟩
    · exact ⟨before, [], rfl, hwaiting, hpos⟩

end HtapThreads

/-! ## Every schedule -/

namespace Benchmark

theorem orderly_htapThreads [Machine] (o : BenchmarkOptions) (total : Nat)
    (limiters : Fin (threadCount o) → Option RateLimiter) :
    (htapThreads o total limiters).Orderly where
  counts := ⟨fun _ => false, fun i => follows_runDetached_of_run (follows_run_counting _),
    by simp [htapThreads, Crew.start, Awaits]⟩
  follows_counting _ := follows_runDetached_of_run (follows_run_counting _)
  follows_recalling j :=
    follows_runDetached_of_run (follows_run_recalling (transactionalClient o (limiters j) j))
  done_of_seen j hseen := by simp [htapThreads] at hseen
  open_of_stage := nofun
  open_of_done := nofun

/-- However the threads of the phase take turns, whatever its clients are answered and whenever the
limit is over, if ever: the latch of the analytic clients says how many of them have not counted it
down, which a client does when it returns; the transactional clients are told that the analytic ones
are done when all of those have returned; the analytic clients are told to stop only if some of them
were under way when the limit was over; and a transactional client that ends without an error
returns the number of operations it has issued, and it ends before the last analytic one returns
only after as many of them as a machine word counts. -/
theorem transactional_outlast_analytic [Machine] (o : BenchmarkOptions) (total : Nat)
    (limiters : Fin (threadCount o) → Option RateLimiter)
    (schedule : List (Turn (analyticCount o) (threadCount o))) :
    let start := htapThreads o total limiters
    let s := start.run o.timeLimit schedule
    (s.analyticDone = true → ∀ i, returned (s.analytic.members i) = true) ∧
      s.analyticLatch.count = (Finset.univ.filter fun i =>
        (s.analytic.logOf i).any countsDown = false).card ∧
      (∀ i, returned (s.analytic.members i) = (s.analytic.logOf i).any countsDown) ∧
      (s.timeLimit = true → ∃ before after, schedule = before ++ .timer true :: after ∧
        (start.run o.timeLimit before).timer = .waiting ∧
        0 < (start.run o.timeLimit before).analyticLatch.count) ∧
      ∀ j performed, (s.transactional.members j).result? = some (.ok performed) →
        (outcomes (s.transactional.logOf j)).length = performed ∧
        ((outcomes (s.transactional.logOf j)).length = UInt64.size - 1 ∨
          ∀ i, returned (s.analytic.members i) = true) := by
  intro start s
  have horderly : s.Orderly := (orderly_htapThreads o total limiters).run o.timeLimit schedule
  have hcounted : ∀ i, returned (s.analytic.members i) = (s.analytic.logOf i).any countsDown := by
    intro i
    rw [returned_eq (horderly.follows_counting i), counting_after, Bool.false_or]
  have hcount := horderly.counts.count_eq.1
  have hall : s.analyticDone = true → ∀ i, returned (s.analytic.members i) = true := by
    intro hdone
    have hzero := horderly.open_of_done hdone
    rw [HtapThreads.analyticLatch, hcount, Finset.card_eq_zero, Finset.filter_eq_empty_iff] at hzero
    simpa using hzero
  refine ⟨hall, ?_, hcounted, fun hlimit => ?_, fun j performed hresult => ?_⟩
  · simp only [← hcounted]
    exact hcount
  · exact HtapThreads.exists_timeout (by rintro (h | h) <;> cases h) schedule (.inr hlimit)
  · have hends := (horderly.follows_recalling j).of_pending_inl
      (Program.pending_eq_inl_iff.2 hresult)
    rw [Protocol.recalling_after, List.nil_append] at hends
    obtain ⟨hissued, hstops⟩ := hends performed rfl
    rw [hissued]
    exact ⟨rfl, hstops.imp id fun hseen => hall (horderly.done_of_seen j hseen)⟩

section

attribute [local instance] Machine.largest

/-- One client of each kind without tasks: all threads end, the transactional client at its flag. -/
example :
    let o : BenchmarkOptions := { workload := { valuePoolSize := 1 } }
    let i : Fin (analyticCount o) := ⟨0, by decide⟩
    let j : Fin (threadCount o) := ⟨0, by decide⟩
    let s := (htapThreads o 0 fun _ => none).run o.timeLimit
      (List.replicate 6 .main ++ List.replicate 3 (.analytic i calm) ++ List.replicate 2 .main ++
        List.replicate 4 (.transactional j calm) ++ List.replicate 2 .main)
    s.stage = .ended ∧ (s.transactional.members j).result? = some (.ok 0) := ⟨rfl, rfl⟩

end

end Benchmark

end StoreBench
