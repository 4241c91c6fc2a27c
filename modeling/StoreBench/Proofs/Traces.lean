import StoreBench.Proofs.Evaluation
import StoreBench.Proofs.Protocol
/-!
# Traces

A trace of a program is what it asked and was answered on one way from its start to its end, with
what it reported on that way. Every sequence of answers makes a trace, so what holds of all traces
of a program holds whoever answers it and whatever happens between two answers. A trace of programs
in sequence is one of traces in sequence.
-/

namespace StoreBench

variable {ι : Interface} {α β σ : Type}

/-- A request with its answer. -/
structure Answered (ι : Interface) where
  request : ι.Request
  answer : ι.Answer request

/-- What is known after the answers of a log. -/
def Protocol.after {κ : Type} (P : Protocol ι κ) (k : κ) (log : List (Answered ι)) : κ :=
  log.foldl (fun k x => P.next k x.request x.answer) k

theorem Protocol.after_concat {κ : Type} (P : Protocol ι κ) (k : κ) (log : List (Answered ι))
    (x : Answered ι) : P.after k (log ++ [x]) = P.next (P.after k log) x.request x.answer := by
  simp [Protocol.after]

/-- The rules of one who may ask anything and remembers all answers. -/
def Protocol.recalling : Protocol ι (List (Answered ι)) where
  allows _ _ := True
  expects _ _ _ := True
  next known request answer := known ++ [⟨request, answer⟩]

theorem Protocol.recalling_after (known log : List (Answered ι)) :
    recalling.after known log = known ++ log := by
  induction log generalizing known with
  | nil => exact (List.append_nil known).symm
  | cons x log ih => exact (ih (known ++ [x])).trans (List.append_cons known x log).symm

namespace Program

/-- Given the answers of the log, the program makes its requests, reports the events and ends with
the value. -/
def Traces : Program ι α → (events : List Event) → (log : List (Answered ι)) → (value : α) → Prop
  | done a, events, log, value => events = [] ∧ log = [] ∧ value = a
  | note event rest, events, log, value => ∃ later, events = event :: later ∧
      rest.Traces later log value
  | ask request rest, events, log, value => ∃ answer later, log = ⟨request, answer⟩ :: later ∧
      (rest answer).Traces events later value

variable {events : List Event} {log : List (Answered ι)}

theorem traces_call {request : ι.Request} {value : ι.Answer request} :
    (call request).Traces events log value ↔ events = [] ∧ log = [⟨request, value⟩] := by
  constructor
  · rintro ⟨answer, later, rfl, rfl, rfl, rfl⟩
    exact ⟨rfl, rfl⟩
  · rintro ⟨rfl, rfl⟩
    exact ⟨value, [], rfl, rfl, rfl, rfl⟩

/-- A trace of two programs in sequence is a trace of each in sequence. -/
theorem traces_bind {p : Program ι β} {f : β → Program ι α} {value : α} :
    (p >>= f).Traces events log value ↔ ∃ b events₁ events₂ log₁ log₂,
      events = events₁ ++ events₂ ∧ log = log₁ ++ log₂ ∧ p.Traces events₁ log₁ b ∧
        (f b).Traces events₂ log₂ value := by
  induction p generalizing events log with
  | done b =>
    constructor
    · intro h
      exact ⟨b, [], events, [], log, rfl, rfl, ⟨rfl, rfl, rfl⟩, h⟩
    · rintro ⟨_, _, _, _, _, rfl, rfl, ⟨rfl, rfl, rfl⟩, h⟩
      exact h
  | note event rest ih =>
    constructor
    · rintro ⟨later, rfl, h⟩
      obtain ⟨b, events₁, events₂, log₁, log₂, rfl, rfl, hp, hf⟩ := ih.1 h
      exact ⟨b, event :: events₁, events₂, log₁, log₂, rfl, rfl, ⟨events₁, rfl, hp⟩, hf⟩
    · rintro ⟨b, _, events₂, log₁, log₂, rfl, rfl, ⟨events₁, rfl, hp⟩, hf⟩
      exact ⟨events₁ ++ events₂, rfl, ih.2 ⟨b, events₁, events₂, log₁, log₂, rfl, rfl, hp, hf⟩⟩
  | ask request rest ih =>
    constructor
    · rintro ⟨answer, later, rfl, h⟩
      obtain ⟨b, events₁, events₂, log₁, log₂, rfl, rfl, hp, hf⟩ := (ih answer).1 h
      exact ⟨b, events₁, events₂, ⟨request, answer⟩ :: log₁, log₂, rfl, rfl,
        ⟨answer, log₁, rfl, hp⟩, hf⟩
    · rintro ⟨b, events₁, events₂, _, log₂, rfl, rfl, ⟨answer, log₁, rfl, hp⟩, hf⟩
      exact ⟨answer, log₁ ++ log₂, rfl,
        (ih answer).2 ⟨b, events₁, events₂, log₁, log₂, rfl, rfl, hp, hf⟩⟩

/-- Where every request has an answer, every program has a trace. -/
theorem exists_traces (hanswer : ∀ request : ι.Request, Nonempty (ι.Answer request))
    (p : Program ι α) : ∃ events log value, p.Traces events log value := by
  induction p with
  | done a => exact ⟨[], [], a, rfl, rfl, rfl⟩
  | note event rest ih =>
    obtain ⟨events, log, value, h⟩ := ih
    exact ⟨event :: events, log, value, events, rfl, h⟩
  | ask request rest ih =>
    obtain ⟨answer⟩ := hanswer request
    obtain ⟨events, log, value, h⟩ := ih answer
    exact ⟨events, ⟨request, answer⟩ :: log, value, answer, log, rfl, h⟩

/-- A program in whose traces there are only requests that are allowed, and from which nothing is
learned, follows the protocol. -/
theorem Follows.of_traces {κ : Type} {P : Protocol ι κ} {k : κ} {may : ι.Request → Prop}
    {ends : κ → α → Prop} (hanswer : ∀ request : ι.Request, Nonempty (ι.Answer request))
    (hmay : ∀ request, may request → P.allows k request ∧ ∀ answer, P.next k request answer = k)
    {p : Program ι α} (h : ∀ events log value, p.Traces events log value →
      (∀ x ∈ log, may x.request) ∧ ends k value) : p.Follows P ends k := by
  induction p with
  | done a => exact (h [] [] a ⟨rfl, rfl, rfl⟩).2
  | note event rest ih =>
    exact ih fun events log value hrest => h (event :: events) log value ⟨events, rfl, hrest⟩
  | ask request rest ih =>
    have hrest : ∀ answer events log value, (rest answer).Traces events log value →
        may request ∧ (∀ x ∈ log, may x.request) ∧ ends k value := by
      intro answer events log value htraces
      obtain ⟨hlog, hends⟩ := h events (⟨request, answer⟩ :: log) value ⟨answer, log, rfl, htraces⟩
      exact ⟨(List.forall_mem_cons.1 hlog).1, (List.forall_mem_cons.1 hlog).2, hends⟩
    obtain ⟨answer⟩ := hanswer request
    obtain ⟨events, log, value, htraces⟩ := exists_traces hanswer (rest answer)
    obtain ⟨hallows, hnext⟩ := hmay request (hrest answer events log value htraces).1
    refine ⟨hallows, fun answer _ => ?_⟩
    rw [hnext]
    exact ih answer fun events log value htraces => (hrest answer events log value htraces).2

/-- A program whose traces end as told with what is known then follows a protocol that allows all
requests. -/
theorem Follows.of_traces_after {κ : Type} {P : Protocol ι κ} {ends : κ → α → Prop}
    (hallows : ∀ k request, P.allows k request) {p : Program ι α} {k : κ}
    (h : ∀ events log value, p.Traces events log value → ends (P.after k log) value) :
    p.Follows P ends k := by
  induction p generalizing k with
  | done a => exact h [] [] a ⟨rfl, rfl, rfl⟩
  | note event rest ih =>
    exact ih fun events log value hrest => h (event :: events) log value ⟨events, rfl, hrest⟩
  | ask request rest ih =>
    refine ⟨hallows k request, fun answer _ => ih answer fun events log value hrest => ?_⟩
    exact h events (⟨request, answer⟩ :: log) value ⟨answer, log, rfl, hrest⟩

/-- Where every answer is expected, a trace of a program that follows a protocol ends as told. -/
theorem Follows.ends_of_traces {κ : Type} {P : Protocol ι κ} {k : κ} {ends : κ → α → Prop}
    {p : Program ι α} (hp : p.Follows P ends k)
    (hexpects : ∀ k request answer, P.expects k request answer) {value : α}
    (h : p.Traces events log value) : ends (P.after k log) value := by
  induction p generalizing k events log with
  | done a =>
    obtain ⟨-, rfl, rfl⟩ := h
    exact hp
  | note event rest ih =>
    obtain ⟨later, -, hrest⟩ := h
    exact ih hp hrest
  | ask request rest ih =>
    obtain ⟨answer, later, rfl, hrest⟩ := h
    show ends (P.after (P.next k request answer) later) value
    exact ih answer (hp.2 answer (hexpects k request answer)) hrest

/-- Answer as told and take down what was answered. -/
def logging (reply : (request : ι.Request) → σ → ι.Answer request × σ) (request : ι.Request)
    (s : σ × List (Answered ι)) : ι.Answer request × σ × List (Answered ι) :=
  let (answer, outside) := reply request s.1
  (answer, outside, s.2 ++ [⟨request, answer⟩])

/-- What is taken down while a program is evaluated is the log of a trace of it. -/
theorem traces_logging (reply : (request : ι.Request) → σ → ι.Answer request × σ)
    (p : Program ι α) (s : σ) (before : List (Answered ι)) :
    let (value, _, after) := p.evaluate (logging reply) (s, before)
    ∃ events log, after = before ++ log ∧ p.Traces events log value := by
  induction p generalizing s before with
  | done a => exact ⟨[], [], (List.append_nil before).symm, rfl, rfl, rfl⟩
  | note event rest ih =>
    obtain ⟨events, log, hafter, htraces⟩ := ih s before
    exact ⟨event :: events, log, hafter, events, rfl, htraces⟩
  | ask request rest ih =>
    obtain ⟨events, log, hafter, htraces⟩ :=
      ih (reply request s).1 (reply request s).2 (before ++ [⟨request, (reply request s).1⟩])
    refine ⟨events, ⟨request, (reply request s).1⟩ :: log, ?_, (reply request s).1, log, rfl,
      htraces⟩
    simpa [logging] using hafter

end Program

namespace Attempt

variable {events : List Event} {log : List (Answered ι)}

/-- A trace of attempts in sequence is one of the first, if it fails, and otherwise one of each. -/
theorem traces_run_bind {p : Attempt ι β} {f : β → Attempt ι α} {result : Except Failure α} :
    (p >>= f).run.Traces events log result ↔
      (∃ failure, result = .error failure ∧ p.run.Traces events log (.error failure)) ∨
      ∃ b events₁ events₂ log₁ log₂, events = events₁ ++ events₂ ∧ log = log₁ ++ log₂ ∧
        p.run.Traces events₁ log₁ (.ok b) ∧ (f b).run.Traces events₂ log₂ result := by
  refine Iff.trans Program.traces_bind ?_
  constructor
  · rintro ⟨failure | b, events₁, events₂, log₁, log₂, rfl, rfl, hp, hf⟩
    · obtain ⟨rfl, rfl, rfl⟩ := hf
      rw [List.append_nil, List.append_nil]
      exact .inl ⟨failure, rfl, hp⟩
    · exact .inr ⟨b, events₁, events₂, log₁, log₂, rfl, rfl, hp, hf⟩
  · rintro (⟨failure, rfl, hp⟩ | ⟨b, events₁, events₂, log₁, log₂, rfl, rfl, hp, hf⟩)
    · exact ⟨.error failure, events, [], log, [], by simp, by simp, hp, rfl, rfl, rfl⟩
    · exact ⟨.ok b, events₁, events₂, log₁, log₂, rfl, rfl, hp, hf⟩

end Attempt

end StoreBench
