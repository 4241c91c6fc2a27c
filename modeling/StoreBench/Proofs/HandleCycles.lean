import StoreBench.Proofs.Traces
import StoreBench.SharedHandle
/-!
# Cycles of a shared handle

References to a shared handle are taken and dropped in any order, and whoever opens and closes the
engine may succeed or fail each time as they please. The history of a handle is then a sequence of
cycles, each of one opening, the references handed out to the engine opened, and one closing; the
last cycle may be unfinished, and is so exactly while there are references.
-/

namespace StoreBench

variable {ε σ : Type}

namespace SharedHandle

/-- A use that was made of a handle: the handle before, what it asked and was answered, the outcome,
and the handle after. -/
inductive Turn (ε : Type) where
  | acquired (before : SharedHandle ε) (calls : List (Answered (lifecycle ε)))
      (outcome : Except Failure ε) (after : SharedHandle ε)
  | released (before : SharedHandle ε) (calls : List (Answered (lifecycle ε)))
      (outcome : Except Failure Unit) (after : SharedHandle ε)

/-- What can be done with a handle. -/
inductive Use where
  | acquire
  | release

/-- A handle on its way, with those who open and close its engine and all turns so far. -/
structure History (ε σ : Type) where
  handle : SharedHandle ε
  outside : σ
  turns : List (Turn ε)

namespace History

/-- Make a use of the handle. -/
def step (reply : (call : LifecycleCall ε) → σ → Except Failure call.Result × σ)
    (h : History ε σ) : Use → History ε σ
  | .acquire =>
    let ((outcome, after), outside, calls) :=
      h.handle.acquire.evaluate (Program.logging (ι := lifecycle ε) reply) (h.outside, [])
    ⟨after, outside, h.turns ++ [.acquired h.handle calls outcome after]⟩
  | .release =>
    let ((outcome, after), outside, calls) :=
      h.handle.release.evaluate (Program.logging (ι := lifecycle ε) reply) (h.outside, [])
    ⟨after, outside, h.turns ++ [.released h.handle calls outcome after]⟩

/-- Make uses of a fresh handle, one after another. -/
def run (name : String) (reply : (call : LifecycleCall ε) → σ → Except Failure call.Result × σ)
    (outside : σ) (uses : List Use) : History ε σ :=
  uses.foldl (step reply) ⟨.fresh name, outside, []⟩

end History

/-! ## Single turns -/

/-- A handle has an engine exactly while there are references to it. -/
def Balanced (h : SharedHandle ε) : Prop := h.engine.isSome ↔ 0 < h.refs

/-- What a turn does. Without references, taking one asks for an engine, and only an engine that was
opened changes the handle; with references, it is handed out again. Dropping the last reference asks
for the engine to be closed, and the handle is closed whatever the answer; dropping one of several
asks nothing, and a surplus one is refused. -/
def Turn.IsProper : Turn ε → Prop
  | acquired before calls outcome after =>
    (before.refs = 0 → calls = [⟨.openEngine, outcome⟩] ∧
      after = match outcome with
        | .ok engine => { before with engine := some engine, refs := 1, opens := before.opens + 1 }
        | .error _ => before) ∧
    (0 < before.refs → calls = [] ∧ ∃ engine, before.engine = some engine ∧
      outcome = .ok engine ∧ after = { before with refs := before.refs + 1 })
  | released before calls outcome after =>
    (before.refs = 0 → calls = [] ∧ after = before ∧
      outcome = .error (.raised (.configuration (.surplusRelease before.name)))) ∧
    (before.refs = 1 → ∃ engine, before.engine = some engine ∧
      calls = [⟨.closeEngine engine, outcome⟩] ∧
      after = { before with engine := none, refs := 0, closes := before.closes + 1 }) ∧
    (1 < before.refs → calls = [] ∧ outcome = .ok () ∧
      after = { before with refs := before.refs - 1 })

variable {h : SharedHandle ε} {events : List Event} {calls : List (Answered (lifecycle ε))}

theorem isProper_acquired (hbalanced : h.Balanced) {outcome : Except Failure ε}
    {after : SharedHandle ε} (htraces : h.acquire.Traces events calls (outcome, after)) :
    (Turn.acquired h calls outcome after).IsProper := by
  cases hengine : h.engine with
  | some engine =>
    have hrefs : 0 < h.refs := hbalanced.1 (hengine ▸ rfl)
    rw [acquire, hengine] at htraces
    obtain ⟨-, rfl, hvalue⟩ := htraces
    cases hvalue
    refine ⟨fun hzero => absurd hzero (Nat.ne_of_gt hrefs), fun _ => ?_⟩
    exact ⟨rfl, engine, hengine, rfl, by rw [hengine]⟩
  | none =>
    have hrefs : ¬ 0 < h.refs := fun hpos => by simpa [hengine] using hbalanced.2 hpos
    rw [acquire, hengine] at htraces
    obtain ⟨answer, _, rfl, hrest⟩ := htraces
    refine ⟨fun _ => ?_, fun hpos => absurd hpos hrefs⟩
    rcases answer with (error | _ | _) | engine
    · obtain ⟨_, -, _, -, -, rfl, hvalue⟩ := hrest
      cases hvalue
      exact ⟨rfl, rfl⟩
    · obtain ⟨-, rfl, hvalue⟩ := hrest
      cases hvalue
      exact ⟨rfl, rfl⟩
    · obtain ⟨-, rfl, hvalue⟩ := hrest
      cases hvalue
      exact ⟨rfl, rfl⟩
    · obtain ⟨_, -, _, -, -, rfl, hvalue⟩ := hrest
      cases hvalue
      exact ⟨rfl, rfl⟩

theorem isProper_released (hbalanced : h.Balanced) {outcome : Except Failure Unit}
    {after : SharedHandle ε} (htraces : h.release.Traces events calls (outcome, after)) :
    (Turn.released h calls outcome after).IsProper := by
  unfold release at htraces
  split at htraces
  · next hrefs =>
    obtain ⟨-, rfl, hvalue⟩ := htraces
    cases hvalue
    exact ⟨fun _ => ⟨rfl, rfl, rfl⟩, by omega, by omega⟩
  · next engine hrefs hengine =>
    refine ⟨by omega, fun _ => ⟨engine, hengine, ?_⟩, by omega⟩
    obtain ⟨answer, _, rfl, hrest⟩ := htraces
    rcases answer with (error | _ | _) | _
    · obtain ⟨_, -, _, -, -, rfl, hvalue⟩ := hrest
      cases hvalue
      exact ⟨rfl, rfl⟩
    · obtain ⟨-, rfl, hvalue⟩ := hrest
      cases hvalue
      exact ⟨rfl, rfl⟩
    · obtain ⟨-, rfl, hvalue⟩ := hrest
      cases hvalue
      exact ⟨rfl, rfl⟩
    · obtain ⟨_, -, _, -, -, rfl, hvalue⟩ := hrest
      cases hvalue
      exact ⟨rfl, rfl⟩
  · next refs hrefs hlast =>
    have hpos : 0 < refs := by
      refine Nat.pos_of_ne_zero fun hzero => ?_
      obtain ⟨engine, hengine⟩ := Option.isSome_iff_exists.1 (hbalanced.2 (by omega))
      exact hlast engine hengine hzero
    obtain ⟨-, rfl, hvalue⟩ := htraces
    cases hvalue
    refine ⟨by omega, by omega, fun _ => ⟨rfl, rfl, ?_⟩⟩
    rw [hrefs, Nat.succ_sub_one]

/-! ## Histories -/

namespace Turn

def before : Turn ε → SharedHandle ε
  | acquired before .. => before
  | released before .. => before

def after : Turn ε → SharedHandle ε
  | acquired _ _ _ after => after
  | released _ _ _ after => after

/-- Whether a reference was taken. -/
def takes : Turn ε → Bool
  | acquired _ _ (.ok _) _ => true
  | _ => false

/-- Whether a reference was dropped. A release is refused if it fails without asking anything. -/
def drops : Turn ε → Bool
  | acquired .. => false
  | released _ [] (.error _) _ => false
  | released .. => true

end Turn

/-- What happened to an engine. -/
inductive Mark (ε : Type) where
  | opened (engine : ε)
  | handed (engine : ε)
  | closed (engine : ε)

/-- What a call did to an engine. Closing it counts whatever the answer. -/
def Mark.ofCall : Answered (lifecycle ε) → List (Mark ε)
  | ⟨.openEngine, .ok engine⟩ => [.opened engine]
  | ⟨.openEngine, .error _⟩ => []
  | ⟨.closeEngine engine, _⟩ => [.closed engine]

def Turn.marks : Turn ε → List (Mark ε)
  | acquired _ calls (.ok engine) _ => calls.flatMap Mark.ofCall ++ [.handed engine]
  | acquired _ calls (.error _) _ => calls.flatMap Mark.ofCall
  | released _ calls _ _ => calls.flatMap Mark.ofCall

/-- An engine is opened and handed out, and then again as often as told. -/
def opening (engine : ε) (again : Nat) : List (Mark ε) :=
  .opened engine :: List.replicate (again + 1) (.handed engine)

/-- An engine is opened, handed out once and again as often as told, and closed. -/
def cycle (c : ε × Nat) : List (Mark ε) := opening c.1 c.2 ++ [.closed c.1]

/-- What happened since the last closing. -/
def Unfinished : Option ε → List (Mark ε) → Prop
  | none, marks => marks = []
  | some engine, marks => ∃ again, marks = opening engine again

/-- The turns that were taken and the handle they left. -/
structure Exact (turns : List (Turn ε)) (h : SharedHandle ε) : Prop where
  balanced : h.Balanced
  opens_eq : h.opens = h.closes + if h.isOpen then 1 else 0
  refs_eq : h.refs + turns.countP Turn.drops = turns.countP Turn.takes
  proper : ∀ t ∈ turns, t.IsProper
  cycles : ∃ (cycles : List (ε × Nat)) (rest : List (Mark ε)), h.closes = cycles.length ∧
    turns.flatMap Turn.marks = cycles.flatMap cycle ++ rest ∧ Unfinished h.engine rest

theorem exact_fresh (name : String) : Exact [] (fresh name : SharedHandle ε) where
  balanced := by simp [Balanced, fresh]
  opens_eq := rfl
  refs_eq := rfl
  proper := nofun
  cycles := ⟨[], [], rfl, rfl, rfl⟩

theorem opening_succ (engine : ε) (again : Nat) :
    opening engine (again + 1) = opening engine again ++ [.handed engine] := by
  rw [opening, opening, List.replicate_succ', List.cons_append]

/-- A turn that takes a reference. -/
theorem Exact.acquired {turns : List (Turn ε)} (hexact : Exact turns h)
    {outcome : Except Failure ε} {after : SharedHandle ε}
    (ht : (Turn.acquired h calls outcome after).IsProper) :
    Exact (turns ++ [.acquired h calls outcome after]) after := by
  obtain ⟨hbalanced, hopens, hrefs, hproper, cycles, rest, hcloses, hmarks, hrest⟩ := hexact
  have hproper' : ∀ t ∈ turns ++ [.acquired h calls outcome after], t.IsProper := by
    simpa [or_imp, forall_and] using ⟨hproper, ht⟩
  rcases Nat.eq_zero_or_pos h.refs with hzero | hpos
  · have hengine : h.engine = none := by
      simpa [hzero, Balanced] using hbalanced
    obtain rfl : rest = [] := by simpa [hengine, Unfinished] using hrest
    obtain ⟨rfl, rfl⟩ := ht.1 hzero
    cases outcome with
    | error failure =>
      refine ⟨hbalanced, hopens, ?_, hproper', cycles, [], hcloses, ?_, hrest⟩
      · simpa [Turn.takes, Turn.drops] using hrefs
      · simpa [Turn.marks, Mark.ofCall] using hmarks
    | ok engine =>
      refine ⟨?_, ?_, ?_, hproper', cycles, opening engine 0, hcloses, ?_, 0, rfl⟩
      · simp [Balanced]
      · simpa [isOpen, hengine] using hopens
      · simp [Turn.takes, Turn.drops]
        omega
      · simp [Turn.marks, Mark.ofCall, hmarks, opening]
  · obtain ⟨rfl, engine, hengine, rfl, rfl⟩ := ht.2 hpos
    obtain ⟨again, rfl⟩ : ∃ again, rest = opening engine again := by
      simpa [hengine, Unfinished] using hrest
    refine ⟨?_, hopens, ?_, hproper', cycles, opening engine (again + 1), hcloses, ?_, ?_⟩
    · simp [Balanced, hengine]
    · simp [Turn.takes, Turn.drops]
      omega
    · simp [Turn.marks, hmarks, opening_succ]
    · show Unfinished h.engine (opening engine (again + 1))
      rw [hengine]
      exact ⟨again + 1, rfl⟩

/-- A turn that drops a reference. -/
theorem Exact.released {turns : List (Turn ε)} (hexact : Exact turns h)
    {outcome : Except Failure Unit} {after : SharedHandle ε}
    (ht : (Turn.released h calls outcome after).IsProper) :
    Exact (turns ++ [.released h calls outcome after]) after := by
  obtain ⟨hbalanced, hopens, hrefs, hproper, cycles, rest, hcloses, hmarks, hrest⟩ := hexact
  have hproper' : ∀ t ∈ turns ++ [.released h calls outcome after], t.IsProper := by
    simpa [or_imp, forall_and] using ⟨hproper, ht⟩
  obtain hzero | hone | hmany : h.refs = 0 ∨ h.refs = 1 ∨ 1 < h.refs := by omega
  · obtain ⟨rfl, rfl, rfl⟩ := ht.1 hzero
    refine ⟨hbalanced, hopens, ?_, hproper', cycles, rest, hcloses, ?_, hrest⟩
    · simpa [Turn.takes, Turn.drops] using hrefs
    · simpa [Turn.marks] using hmarks
  · obtain ⟨engine, hengine, rfl, rfl⟩ := ht.2.1 hone
    obtain ⟨again, rfl⟩ : ∃ again, rest = opening engine again := by
      simpa [hengine, Unfinished] using hrest
    refine ⟨?_, ?_, ?_, hproper', cycles ++ [(engine, again)], [], ?_, ?_, rfl⟩
    · simp [Balanced]
    · simpa [isOpen, hengine] using hopens
    · simp [Turn.takes, Turn.drops]
      omega
    · simp [hcloses]
    · simp [Turn.marks, Mark.ofCall, hmarks, cycle]
  · obtain ⟨rfl, rfl, rfl⟩ := ht.2.2 hmany
    have hengine : h.engine.isSome := hbalanced.2 (by omega)
    refine ⟨?_, hopens, ?_, hproper', cycles, rest, hcloses, ?_, hrest⟩
    · simp only [Balanced, hengine, true_iff]
      omega
    · simp [Turn.takes, Turn.drops]
      omega
    · simpa [Turn.marks] using hmarks

namespace History

variable {reply : (call : LifecycleCall ε) → σ → Except Failure call.Result × σ}

theorem exact_step {h : History ε σ} (hexact : Exact h.turns h.handle) (use : Use) :
    Exact (h.step reply use).turns (h.step reply use).handle := by
  cases use with
  | acquire =>
    obtain ⟨events, log, hlog, htraces⟩ :=
      Program.traces_logging (ι := lifecycle ε) reply h.handle.acquire h.outside []
    refine hexact.acquired ?_
    rw [hlog]
    exact isProper_acquired hexact.balanced htraces
  | release =>
    obtain ⟨events, log, hlog, htraces⟩ :=
      Program.traces_logging (ι := lifecycle ε) reply h.handle.release h.outside []
    refine hexact.released ?_
    rw [hlog]
    exact isProper_released hexact.balanced htraces

theorem exact_run (name : String) (outside : σ) (uses : List Use) :
    Exact (run name reply outside uses).turns (run name reply outside uses).handle := by
  have hfold : ∀ h : History ε σ, Exact h.turns h.handle →
      Exact (uses.foldl (step reply) h).turns (uses.foldl (step reply) h).handle := by
    induction uses with
    | nil => exact fun _ hexact => hexact
    | cons use uses ih => exact fun h hexact => ih (h.step reply use) (exact_step hexact use)
  exact hfold ⟨.fresh name, outside, []⟩ (exact_fresh name)

/-- After any uses of a handle, whatever is answered to those that open or close its engine:
an engine is held exactly while there are references;
there was one opening more than closings if one is held, and otherwise as many;
there are as many references as were taken and not dropped;
every turn was a proper one;
and what happened is a sequence of cycles of one engine each, as many as there were closings, in
which the engine is opened, handed out, and closed, the last one being unfinished while an engine is
held, which is the one opened last. -/
theorem opens_once_closes_once (name : String)
    (reply : (call : LifecycleCall ε) → σ → Except Failure call.Result × σ) (outside : σ)
    (uses : List Use) :
    let h := run name reply outside uses
    (h.handle.isOpen = true ↔ 0 < h.handle.refs) ∧
    h.handle.opens = h.handle.closes + (if h.handle.isOpen then 1 else 0) ∧
    h.handle.refs + h.turns.countP Turn.drops = h.turns.countP Turn.takes ∧
    (∀ t ∈ h.turns, t.IsProper) ∧
    ∃ (cycles : List (ε × Nat)) (rest : List (Mark ε)), h.handle.closes = cycles.length ∧
      h.turns.flatMap Turn.marks = cycles.flatMap cycle ++ rest ∧
      Unfinished h.handle.engine rest := by
  intro h
  have hexact : Exact h.turns h.handle := exact_run name outside uses
  exact ⟨hexact.balanced, hexact.opens_eq, hexact.refs_eq, hexact.proper, hexact.cycles⟩

end History

end SharedHandle

end StoreBench
