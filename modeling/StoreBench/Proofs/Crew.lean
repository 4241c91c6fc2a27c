import Mathlib.Logic.Function.Basic
import StoreBench.Proofs.Protocol
/-!
# Crews

A crew is a number of programs that make their requests of one shared state, in any order: a turn
of a member serves the next request it makes, which is one atomic step, and a schedule says whose
turn it is. The log lists what was served. Where every member follows a protocol and every answer
is as the protocol expects, an invariant of single turns is one of every schedule.
-/

namespace StoreBench

variable {ι : Interface} {α κ σ : Type} {n : Nat}

namespace Program

/-- The value a program ends with, or its next request and what follows, events forgotten. -/
def pending : Program ι α → α ⊕ (request : ι.Request) × (ι.Answer request → Program ι α)
  | done a => .inl a
  | note _ rest => rest.pending
  | ask request rest => .inr ⟨request, rest⟩

/-- The next request of a program. -/
def request? (p : Program ι α) : Option ι.Request := p.pending.getRight?.map Sigma.fst

/-- The value of a program that makes no more requests. -/
def result? (p : Program ι α) : Option α := p.pending.getLeft?

variable {P : Protocol ι κ} {ends : κ → α → Prop} {k : κ} {p : Program ι α}

theorem pending_eq_inl_iff {a : α} : p.pending = .inl a ↔ p.result? = some a := by
  simp [result?, Sum.getLeft?_eq_some_iff]

theorem Follows.of_pending_inl (h : p.Follows P ends k) {a : α} (hp : p.pending = .inl a) :
    ends k a := by
  induction p with
  | done b => cases hp; exact h
  | note event rest ih => exact ih h hp
  | ask request rest => cases hp

theorem Follows.of_pending_inr (h : p.Follows P ends k) {request : ι.Request}
    {rest : ι.Answer request → Program ι α} (hp : p.pending = .inr ⟨request, rest⟩) :
    P.allows k request ∧ ∀ answer, P.expects k request answer →
      (rest answer).Follows P ends (P.next k request answer) := by
  induction p with
  | done b => cases hp
  | note event rest ih => exact ih h hp
  | ask request rest => cases hp; exact h

theorem Follows.allows (h : p.Follows P ends k) {request : ι.Request}
    (hp : p.request? = some request) : P.allows k request := by
  cases hpending : p.pending with
  | inl a => simp [request?, hpending] at hp
  | inr next =>
    obtain rfl : next.1 = request := by simpa [request?, hpending] using hp
    exact (h.of_pending_inr hpending).1

end Program

/-- A request that was served: whose it was, and its answer. -/
structure Served (ι : Interface) (n : Nat) where
  member : Fin n
  request : ι.Request
  answer : ι.Answer request

/-- Programs on their way, with the state they share and what was served so far. -/
structure Crew (ι : Interface) (α σ : Type) (n : Nat) where
  members : Fin n → Program ι α
  shared : σ
  log : List (Served ι n)

namespace Crew

/-- A crew of which nothing was served yet. -/
def start (members : Fin n → Program ι α) (shared : σ) : Crew ι α σ n := ⟨members, shared, []⟩

variable (answer : Fin n → (request : ι.Request) → σ → ι.Answer request × σ)

/-- Serve the next request of a member. A member that makes no more requests does nothing. -/
def turn (c : Crew ι α σ n) (i : Fin n) : Crew ι α σ n :=
  match (c.members i).pending with
  | .inl _ => c
  | .inr ⟨request, rest⟩ =>
    let (a, shared) := answer i request c.shared
    ⟨Function.update c.members i (rest a), shared, c.log ++ [⟨i, request, a⟩]⟩

/-- Serve the members in the order of a schedule. -/
def run (c : Crew ι α σ n) (schedule : List (Fin n)) : Crew ι α σ n :=
  schedule.foldl (turn answer) c

@[simp] theorem run_nil (c : Crew ι α σ n) : c.run answer [] = c := rfl

@[simp] theorem run_cons (c : Crew ι α σ n) (i : Fin n) (schedule : List (Fin n)) :
    c.run answer (i :: schedule) = (c.turn answer i).run answer schedule := rfl

/-- Every turn of a schedule is taken in a state where it may be. -/
def Permits (may : Crew ι α σ n → Fin n → Prop) : Crew ι α σ n → List (Fin n) → Prop
  | _, [] => True
  | c, i :: schedule => may c i ∧ Permits may (c.turn answer i) schedule

variable {answer} {c : Crew ι α σ n} {i : Fin n}

theorem turn_of_pending_inl {a : α} (h : (c.members i).pending = .inl a) :
    c.turn answer i = c := by
  rw [turn, h]

theorem turn_of_pending_inr {request : ι.Request} {rest : ι.Answer request → Program ι α}
    (h : (c.members i).pending = .inr ⟨request, rest⟩) :
    c.turn answer i =
      ⟨Function.update c.members i (rest (answer i request c.shared).1),
        (answer i request c.shared).2,
        c.log ++ [⟨i, request, (answer i request c.shared).1⟩]⟩ := by
  rw [turn, h]

/-- What turns preserve where they may be taken, a permitted schedule does. -/
theorem run_induction {I : Crew ι α σ n → Prop} {may : Crew ι α σ n → Fin n → Prop}
    (hturn : ∀ c i, I c → may c i → I (c.turn answer i)) {schedule : List (Fin n)} (h : I c)
    (hmay : Permits answer may c schedule) : I (c.run answer schedule) := by
  induction schedule generalizing c with
  | nil => exact h
  | cons i schedule ih => exact ih (hturn c i h hmay.1) hmay.2

/-- What every turn preserves, every schedule does. -/
theorem run_preserves {I : Crew ι α σ n → Prop} (hturn : ∀ c i, I c → I (c.turn answer i))
    (h : I c) (schedule : List (Fin n)) : I (c.run answer schedule) := by
  induction schedule generalizing c with
  | nil => exact h
  | cons i schedule ih => exact ih (hturn c i h)

/-- Every member follows the protocol, with what it knows, and what the members know fits the
state. -/
def Conforms (P : Protocol ι κ) (ends : Fin n → κ → α → Prop)
    (I : (Fin n → κ) → Crew ι α σ n → Prop) (c : Crew ι α σ n) : Prop :=
  ∃ known : Fin n → κ, (∀ i, (c.members i).Follows P (ends i) (known i)) ∧ I known c

variable {P : Protocol ι κ} {ends : Fin n → κ → α → Prop} {I : (Fin n → κ) → Crew ι α σ n → Prop}

/-- One turn of a crew, given that its request is answered as expected and the invariant kept. -/
theorem Conforms.turn (h : c.Conforms P ends I)
    (hserve : ∀ known request rest, (∀ j, (c.members j).Follows P (ends j) (known j)) →
      I known c → (c.members i).pending = .inr ⟨request, rest⟩ → P.allows (known i) request →
      P.expects (known i) request (answer i request c.shared).1 ∧
        I (Function.update known i (P.next (known i) request (answer i request c.shared).1))
          (c.turn answer i)) :
    (c.turn answer i).Conforms P ends I := by
  obtain ⟨known, hfollows, hI⟩ := h
  cases hpending : (c.members i).pending with
  | inl a =>
    rw [turn_of_pending_inl hpending]
    exact ⟨known, hfollows, hI⟩
  | inr next =>
    obtain ⟨request, rest⟩ := next
    obtain ⟨hallows, hrest⟩ := (hfollows i).of_pending_inr hpending
    obtain ⟨hexpected, hnext⟩ := hserve known request rest hfollows hI hpending hallows
    refine ⟨_, fun j => ?_, hnext⟩
    rw [turn_of_pending_inr hpending]
    by_cases hj : j = i
    · subst hj
      simpa using hrest _ hexpected
    · simpa [hj] using hfollows j

end Crew

end StoreBench
