import Mathlib.Data.List.Perm.Basic
import StoreBench.Format.Columnar
import StoreBench.Format.Schemaless
import StoreBench.Proofs.Traces
import StoreBench.Workload.Basic
/-!
# What journals tell of operations

Some sensors count operations, each layer having its own; the others tell what goes on inside of
them. A program tallies a list of the former if it reports just these, on whatever way it goes.
Rows are coded and formats work without a word about operations, and the plan of an operation tells
of it once.

A step tells of operations if these are what a journal has grown by, the order left aside. Steps in
sequence add up, and an interpretation adds what the program reports to what is added where its
requests are answered.
-/

namespace StoreBench

open Skew

variable {ι : Interface} {α β τ : Type}

/-- Whether a sensor counts operations. -/
def Sensor.isTally : Sensor → Bool
  | .workloadOperation _ | .adapterOperation _ | .adapterError => true
  | .latency _ | .measuredOk _ | .measuredFailed _ => true
  | .clientOperation | .clientNotOk => true
  | _ => false

/-- The sensor that counts operations and moves with an event, if there is one. -/
def Event.tally : Event → List Sensor
  | click sensor => if sensor.isTally then [sensor] else []
  | log .. => []

/-- The operations that events tell of. -/
def tally (events : List Event) : List Sensor := events.flatMap Event.tally

@[simp] theorem tally_nil : tally [] = [] := rfl

@[simp] theorem tally_cons (event : Event) (events : List Event) :
    tally (event :: events) = event.tally ++ tally events := rfl

@[simp] theorem tally_append (events events' : List Event) :
    tally (events ++ events') = tally events ++ tally events' := List.flatMap_append

/-- Sensors that count operations are read off the tally. -/
theorem clicks_eq_count_tally {sensor : Sensor} (h : sensor.isTally = true) (events : List Event) :
    Event.clicks sensor events = (tally events).count sensor := by
  induction events with
  | nil => rfl
  | cons event events ih =>
    have hhead : List.count (.click sensor) [event] = event.tally.count sensor := by
      cases event with
      | log level message => simp [Event.tally]
      | click other =>
        by_cases hother : other = sensor
        · simp [Event.tally, hother, h]
        · by_cases htally : other.isTally = true <;> simp [Event.tally, hother, htally]
    rw [tally_cons, List.count_append, ← ih, ← hhead]
    exact Event.clicks_append sensor [event] events

/-- Between two states of a journal the operations told of have become more by those listed. -/
def Grew (sensors : List Sensor) (before after : List Event) : Prop :=
  (tally after).Perm (sensors ++ tally before)

namespace Grew

variable {sensors sensors' : List Sensor} {before middle after : List Event}

theorem refl (journal : List Event) : Grew [] journal journal := List.Perm.refl _

theorem event (e : Event) (journal : List Event) : Grew e.tally journal (e :: journal) :=
  List.Perm.refl _

theorem perm (h : Grew sensors before after) (hperm : sensors.Perm sensors') :
    Grew sensors' before after :=
  List.Perm.trans h (hperm.append_right _)

theorem trans (h : Grew sensors before middle) (h' : Grew sensors' middle after) :
    Grew (sensors ++ sensors') before after := by
  refine List.Perm.trans h' ((h.append_left sensors').trans ?_)
  rw [← List.append_assoc]
  exact List.perm_append_comm.append_right _

/-- The growth of a sensor. -/
theorem clicks_eq (h : Grew sensors before after) {sensor : Sensor}
    (hsensor : sensor.isTally = true) :
    Event.clicks sensor after = Event.clicks sensor before + sensors.count sensor := by
  rw [clicks_eq_count_tally hsensor, clicks_eq_count_tally hsensor, h.count_eq, List.count_append,
    Nat.add_comm]

end Grew

/-! ## Steps -/

/-- A journal that goes with a state, and what is kept of the state. -/
structure Ledger (τ : Type) where
  keeps : τ → Prop
  journal : τ → List Event

namespace Ledger

variable {L : Ledger τ} {told : α → List Sensor → Prop}

/-- A step keeps what is to be kept, and the operations it tells of are related to its value. -/
def Tells (L : Ledger τ) (step : StateM τ α) (told : α → List Sensor → Prop) : Prop :=
  ∀ t, L.keeps t → L.keeps (step.run t).2 ∧ ∃ sensors, told (step.run t).1 sensors ∧
    Grew sensors (L.journal t) (L.journal (step.run t).2)

/-- A step keeps what is to be kept and tells of no operation. -/
abbrev Quiet (L : Ledger τ) (step : StateM τ α) : Prop := L.Tells step fun _ sensors => sensors = []

theorem Tells.imp {step : StateM τ α} {told' : α → List Sensor → Prop} (h : L.Tells step told)
    (himp : ∀ a sensors, told a sensors → told' a sensors) : L.Tells step told' := by
  intro t ht
  obtain ⟨hkeeps, sensors, htold, hgrew⟩ := h t ht
  exact ⟨hkeeps, sensors, himp _ _ htold, hgrew⟩

theorem Tells.bind {step : StateM τ β} {next : β → StateM τ α} {first : β → List Sensor → Prop}
    (h : L.Tells step first) (hnext : ∀ b sensors, first b sensors →
      L.Tells (next b) fun a later => told a (sensors ++ later)) :
    L.Tells (step >>= next) told := by
  intro t ht
  obtain ⟨hkeeps, sensors, hfirst, hgrew⟩ := h t ht
  obtain ⟨hkeeps', later, htold, hgrew'⟩ := hnext _ sensors hfirst _ hkeeps
  exact ⟨hkeeps', sensors ++ later, htold, hgrew.trans hgrew'⟩

theorem Tells.quiet_bind {step : StateM τ β} {next : β → StateM τ α} (h : L.Quiet step)
    (hnext : ∀ b, L.Tells (next b) told) : L.Tells (step >>= next) told := by
  refine h.bind ?_
  rintro b _ rfl
  exact hnext b

theorem tells_pure {a : α} (h : told a []) : L.Tells (pure a) told :=
  fun _ ht => ⟨ht, [], h, .refl _⟩

/-- What is found in a state is what was kept. -/
theorem tells_get : L.Tells get fun t sensors => L.keeps t ∧ sensors = [] :=
  fun _ ht => ⟨ht, [], ⟨ht, rfl⟩, .refl _⟩

/-- A step that looks at the state first. -/
theorem tells_get_bind {next : τ → StateM τ α} (h : ∀ t, L.keeps t → L.Tells (next t) told) :
    L.Tells (get >>= next) told := by
  refine tells_get.bind ?_
  rintro t _ ⟨ht, rfl⟩
  exact h t ht

theorem quiet_of_journal_eq {step : StateM τ α} (h : ∀ t, L.keeps t →
    L.keeps (step.run t).2 ∧ L.journal (step.run t).2 = L.journal t) : L.Quiet step := by
  intro t ht
  obtain ⟨hkeeps, hjournal⟩ := h t ht
  exact ⟨hkeeps, [], rfl, hjournal ▸ .refl _⟩

end Ledger

/-! ## Programs -/

namespace Program

/-- On every way the program tells of the operations listed. -/
def Tallies (p : Program ι α) (sensors : List Sensor) : Prop :=
  ∀ events log value, p.Traces events log value → tally events = sensors

theorem tallies_done (a : α) : (done a : Program ι α).Tallies [] := by
  rintro _ _ _ ⟨rfl, -, -⟩
  rfl

theorem tallies_call (request : ι.Request) : (call request).Tallies [] := by
  intro events log value h
  rw [(traces_call.1 h).1]
  rfl

theorem tallies_emit (event : Event) : (emit event : Program ι Unit).Tallies event.tally := by
  rintro _ _ _ ⟨_, rfl, rfl, -, -⟩
  exact List.append_nil _

theorem tallies_click_of_not_isTally {sensor : Sensor} (h : sensor.isTally = false) :
    (click sensor : Program ι Unit).Tallies [] := by
  have hclick : (Event.click sensor).tally = [] := by simp [Event.tally, h]
  exact hclick ▸ tallies_emit (.click sensor)

theorem Tallies.bind {p : Program ι β} {f : β → Program ι α} {sensors sensors' : List Sensor}
    (hp : p.Tallies sensors) (hf : ∀ b, (f b).Tallies sensors') :
    (p >>= f).Tallies (sensors ++ sensors') := by
  intro events log value h
  obtain ⟨b, events₁, events₂, log₁, log₂, rfl, rfl, h₁, h₂⟩ := traces_bind.1 h
  rw [tally_append, hp _ _ _ h₁, hf b _ _ _ h₂]

/-- Answer by what was answered so far, and take it down. -/
def logged (reply : List (Answered ι) → (request : ι.Request) → StateM τ (ι.Answer request))
    (request : ι.Request) : StateM (τ × List (Answered ι)) (ι.Answer request) := fun (t, log) =>
  let (answer, t) := (reply log request).run t
  (answer, t, log ++ [⟨request, answer⟩])

/-- Record an event beside a log. -/
def recorded (record : Event → StateM τ Unit) (event : Event) :
    StateM (τ × List (Answered ι)) Unit := fun (t, log) =>
  ((), ((record event).run t).2, log)

variable {record : Event → StateM τ Unit}

/-- Taking down what is answered changes nothing. -/
theorem interpret_logged (reply : (request : ι.Request) → StateM τ (ι.Answer request))
    (p : Program ι α) (t : τ) (log : List (Answered ι)) :
    let after := (p.interpret (recorded record) (logged fun _ => reply)).run (t, log)
    (after.1, after.2.1) = (p.interpret record reply).run t := by
  induction p generalizing t log with
  | done a => rfl
  | note event rest ih => exact ih _ log
  | ask request rest ih => exact ih _ _ _

section Ledgers

variable {L : Ledger τ} (clicks : Answered ι → List Sensor → Prop)
  (hrecord : ∀ event, L.Tells (record event) fun _ sensors => sensors = event.tally)

include hrecord

/-- A journal grows by what the program reports on its way and by what its answers add. -/
theorem interpret_logged_tells
    {reply : List (Answered ι) → (request : ι.Request) → StateM τ (ι.Answer request)}
    (hreply : ∀ log request, L.Tells (reply log request) fun answer => clicks ⟨request, answer⟩)
    (p : Program ι α) {t : τ} (h : L.keeps t) (log : List (Answered ι)) :
    let after := (p.interpret (recorded record) (logged reply)).run (t, log)
    L.keeps after.2.1 ∧ ∃ events new clicked, after.2.2 = log ++ new ∧
      p.Traces events new after.1 ∧ List.Forall₂ clicks new clicked ∧
      Grew (tally events ++ clicked.flatten) (L.journal t) (L.journal after.2.1) := by
  induction p generalizing t log with
  | done a =>
    exact ⟨h, [], [], [], (List.append_nil log).symm, ⟨rfl, rfl, rfl⟩, .nil, .refl _⟩
  | note event rest ih =>
    obtain ⟨hkeeps, _, rfl, hadded⟩ := hrecord event t h
    obtain ⟨hafter, events, new, clicked, hlog, htraces, hclicked, hgrew⟩ := ih hkeeps log
    refine ⟨hafter, event :: events, new, clicked, hlog, ⟨events, rfl, htraces⟩, hclicked, ?_⟩
    rw [tally_cons, List.append_assoc]
    exact hadded.trans hgrew
  | ask request rest ih =>
    obtain ⟨hkeeps, sensors, hclicks, hadded⟩ := hreply log request t h
    obtain ⟨hafter, events, new, clicked, hlog, htraces, hclicked, hgrew⟩ :=
      ih ((reply log request).run t).1 hkeeps (log ++ [⟨request, ((reply log request).run t).1⟩])
    refine ⟨hafter, events, ⟨request, ((reply log request).run t).1⟩ :: new, sensors :: clicked,
      ?_, ⟨_, new, rfl, htraces⟩, .cons hclicks hclicked, ?_⟩
    · rw [List.append_assoc] at hlog
      exact hlog
    · refine (hadded.trans hgrew).perm ?_
      rw [List.flatten_cons, ← List.append_assoc, ← List.append_assoc]
      exact List.perm_append_comm.append_right _

theorem interpret_tells {reply : (request : ι.Request) → StateM τ (ι.Answer request)}
    (hreply : ∀ request, L.Tells (reply request) fun answer => clicks ⟨request, answer⟩)
    (p : Program ι α) : L.Tells (p.interpret record reply) fun value sensors =>
      ∃ events log clicked, p.Traces events log value ∧ List.Forall₂ clicks log clicked ∧
        sensors = tally events ++ clicked.flatten := by
  intro t h
  obtain ⟨hkeeps, events, log, clicked, -, htraces, hclicked, hgrew⟩ :=
    interpret_logged_tells clicks hrecord (fun _ => hreply) p h []
  rw [← interpret_logged reply p t []]
  exact ⟨hkeeps, _, ⟨events, log, clicked, htraces, hclicked, rfl⟩, hgrew⟩

/-- What is added where it depends on the answers alone. -/
theorem interpret_tells_flatMap {reply : (request : ι.Request) → StateM τ (ι.Answer request)}
    (added : Answered ι → List Sensor) (hreply : ∀ request, L.Tells (reply request) fun answer
      sensors => sensors = added ⟨request, answer⟩)
    (p : Program ι α) : L.Tells (p.interpret record reply) fun value sensors =>
      ∃ events log, p.Traces events log value ∧ sensors = tally events ++ log.flatMap added := by
  refine (interpret_tells (fun x sensors => sensors = added x) hrecord hreply p).imp ?_
  rintro value _ ⟨events, log, clicked, htraces, hclicked, rfl⟩
  have hadded : clicked.flatten = log.flatMap added := by
    clear htraces
    induction hclicked with
    | nil => rfl
    | cons hfirst _ ih => rw [List.flatten_cons, List.flatMap_cons, hfirst, ih]
  exact ⟨events, log, htraces, by rw [hadded]⟩

/-- Whoever answers without a word adds nothing to a program that tells of no operation. -/
theorem interpret_quiet {reply : (request : ι.Request) → StateM τ (ι.Answer request)}
    (hreply : ∀ request, L.Quiet (reply request)) {p : Program ι α} (hp : p.Tallies []) :
    L.Quiet (p.interpret record reply) := by
  refine (interpret_tells_flatMap hrecord (fun _ => []) hreply p).imp ?_
  rintro value _ ⟨events, log, htraces, rfl⟩
  simp [hp _ _ _ htraces]

end Ledgers

end Program

/-! ## Coding and formats -/

namespace Attempt

/-- The attempt tells of no operation. -/
def IsQuiet (p : Attempt ι α) : Prop := p.run.Tallies []

theorem isQuiet_pure (a : α) : (pure a : Attempt ι α).IsQuiet := Program.tallies_done _

theorem isQuiet_raise (e : Error) : (raise e : Attempt ι α).IsQuiet := Program.tallies_done _

theorem isQuiet_ofExcept (result : Except Failure α) : (ofExcept result : Attempt ι α).IsQuiet :=
  Program.tallies_done _

theorem IsQuiet.bind {p : Attempt ι β} {f : β → Attempt ι α} (hp : p.IsQuiet)
    (hf : ∀ b, (f b).IsQuiet) : (p >>= f).IsQuiet := by
  refine Program.Tallies.bind hp fun result => ?_
  cases result with
  | ok b => exact hf b
  | error failure => exact Program.tallies_done _

theorem isQuiet_lift {p : Program ι α} (h : p.Tallies []) : (lift p).IsQuiet :=
  Program.Tallies.bind h fun _ => Program.tallies_done _

theorem isQuiet_ofProgram {p : Program ι (Except Error α)} (h : p.Tallies []) :
    (ofProgram p).IsQuiet :=
  Program.Tallies.bind h fun _ => Program.tallies_done _

theorem isQuiet_click {sensor : Sensor} (h : sensor.isTally = false) :
    (click sensor : Attempt ι Unit).IsQuiet :=
  isQuiet_lift (Program.tallies_click_of_not_isTally h)

theorem isQuiet_mapM {f : β → Attempt ι α} (h : ∀ x, (f x).IsQuiet) (xs : List β) :
    (xs.mapM f).IsQuiet := by
  induction xs with
  | nil => exact isQuiet_pure []
  | cons x xs ih =>
    rw [List.mapM_cons]
    exact (h x).bind fun _ => ih.bind fun _ => isQuiet_pure _

theorem isQuiet_filterMapM {f : β → Attempt ι (Option α)} (h : ∀ x, (f x).IsQuiet) (xs : List β) :
    (xs.filterMapM f).IsQuiet := by
  induction xs with
  | nil => exact isQuiet_pure []
  | cons x xs ih =>
    rw [List.filterMapM_cons]
    refine (h x).bind fun found => ?_
    cases found with
    | none => exact ih
    | some a => exact ih.bind fun _ => isQuiet_pure _

end Attempt

namespace Row

theorem tallies_reportCorruption (result : Except Corruption α) :
    (reportCorruption result : Program ι (Except Error α)).Tallies [] := by
  cases result with
  | ok a => exact Program.tallies_done _
  | error e => exact (Program.tallies_emit _).bind fun _ => Program.tallies_done _

theorem tallies_encode (row : Row) : (encode row : Program ι _).Tallies [] :=
  (Program.tallies_emit _).bind fun _ => Program.tallies_done _

theorem tallies_decode (buffer : Bytes) : (decode buffer : Program ι _).Tallies [] :=
  (Program.tallies_emit _).bind fun _ => tallies_reportCorruption _

theorem tallies_select (wanted : List String) (buffer : Bytes) :
    (select wanted buffer : Program ι _).Tallies [] :=
  (Program.tallies_emit _).bind fun _ => tallies_reportCorruption _

theorem tallies_mergeEncoded (existing : Option Bytes) (operand : Bytes) :
    (mergeEncoded existing operand : Program ι _).Tallies [] := by
  refine (Program.tallies_emit _).bind fun _ => (tallies_decode operand).bind fun updates => ?_
  cases updates with
  | error e => exact Program.tallies_done _
  | ok updates =>
    have hcurrent : (existing.elim (pure (.ok [])) decode : Program ι (Except Error Row)).Tallies
        [] := by
      cases existing with
      | none => exact Program.tallies_done _
      | some buffer => exact tallies_decode buffer
    refine hcurrent.bind fun current => ?_
    cases current with
    | error e => exact Program.tallies_done _
    | ok current => exact tallies_encode _

end Row

namespace ColumnLayout

variable (layout : ColumnLayout)

theorem isQuiet_check (slots : Slots) : (layout.check slots : Attempt ι Unit).IsQuiet := by
  refine (Attempt.isQuiet_ofExcept _).bind fun expected => ?_
  split
  · exact (Attempt.isQuiet_click rfl).bind fun _ => Attempt.isQuiet_raise _
  · exact Attempt.isQuiet_pure _

theorem isQuiet_overlaid (slots : Slots) (fields : Row) :
    (layout.overlaid slots fields : Attempt ι Slots).IsQuiet := by
  have hoverlay : (layout.overlay slots fields : Program ι _).Tallies [] := by
    refine Program.Tallies.bind (layout.isQuiet_check slots) fun checked => ?_
    cases checked with
    | error e => exact Program.tallies_done _
    | ok =>
      rcases layout.write slots fields with ⟨written, _ | unknown⟩ <;>
        exact Program.tallies_done _
  refine (Attempt.isQuiet_lift hoverlay).bind fun overlaid => ?_
  exact (Attempt.isQuiet_ofExcept overlaid.1).bind fun _ => Attempt.isQuiet_pure _

theorem isQuiet_encode [Machine] (key : Bytes) (fields : Row) :
    (layout.encode key fields : Attempt ι Slots).IsQuiet :=
  (Attempt.isQuiet_click rfl).bind fun _ => (Attempt.isQuiet_ofExcept _).bind fun _ =>
    layout.isQuiet_overlaid _ fields

theorem isQuiet_decode (slots : Slots) : (layout.decode slots : Attempt ι Row).IsQuiet :=
  (Attempt.isQuiet_click rfl).bind fun _ => (layout.isQuiet_check slots).bind fun _ =>
    Attempt.isQuiet_pure _

theorem isQuiet_select (wanted : List String) (slots : Slots) :
    (layout.select wanted slots : Attempt ι Row).IsQuiet :=
  (Attempt.isQuiet_click rfl).bind fun _ => (layout.isQuiet_check slots).bind fun _ =>
    Attempt.isQuiet_ofExcept _

end ColumnLayout

namespace SchemalessFormat

variable (f : SchemalessFormat)

theorem isQuiet_decodeStored (key value : Bytes) (fields : Selection) :
    (f.decodeStored key value fields : Attempt ι Row).IsQuiet := by
  cases fields with
  | some wanted => exact Attempt.isQuiet_ofProgram (Row.tallies_select wanted value)
  | none =>
    refine (Attempt.isQuiet_ofProgram (Row.tallies_decode value)).bind fun row => ?_
    split
    · exact (Attempt.isQuiet_raise _).bind fun _ => Attempt.isQuiet_pure _
    · exact Attempt.isQuiet_pure _

theorem isQuiet_attempt (call : KeyValueCall) : call.attempt.IsQuiet := Program.tallies_call _

theorem isQuiet_update (key : Bytes) (fields : Row) : (f.update key fields).IsQuiet := by
  rw [update]
  split
  · refine (isQuiet_attempt _).bind fun found => ?_
    cases found with
    | none => exact Attempt.isQuiet_pure _
    | some value =>
      refine (Attempt.isQuiet_ofProgram (Row.tallies_encode _)).bind fun operand => ?_
      exact (isQuiet_attempt _).bind fun _ => Attempt.isQuiet_pure _
  · refine (isQuiet_attempt _).bind fun found => ?_
    cases found with
    | none => exact Attempt.isQuiet_pure _
    | some value =>
      refine (Attempt.isQuiet_ofProgram (Row.tallies_decode _)).bind fun row => ?_
      refine (Attempt.isQuiet_ofExcept _).bind fun row => ?_
      refine (Attempt.isQuiet_ofProgram (Row.tallies_encode _)).bind fun value => ?_
      exact (isQuiet_attempt _).bind fun _ => Attempt.isQuiet_pure _

theorem isQuiet_match? (predicate : Predicate) (fields : Selection) (key value : Bytes) :
    (f.match? predicate fields key value : Attempt ι (Option Row)).IsQuiet := by
  refine (f.isQuiet_decodeStored key value none).bind fun row => ?_
  split
  · cases fields with
    | none => exact Attempt.isQuiet_pure _
    | some wanted =>
      exact (Attempt.isQuiet_ofProgram (Row.tallies_select wanted value)).bind fun _ =>
        Attempt.isQuiet_pure _
  · exact Attempt.isQuiet_pure _

/-- The format leaves it to others to tell of operations. -/
theorem isQuiet_perform (op : Operation) : (f.perform op).IsQuiet := by
  cases op with
  | read key fields =>
    refine (isQuiet_attempt _).bind fun found => ?_
    cases found with
    | none => exact Attempt.isQuiet_pure _
    | some value =>
      exact (f.isQuiet_decodeStored key value fields).bind fun _ => Attempt.isQuiet_pure _
  | scan start count fields =>
    have hscan : (KeyValueCall.scan start count).IsQuiet := by
      rw [KeyValueCall.scan]
      split
      · exact Attempt.isQuiet_pure _
      · exact (isQuiet_attempt _).bind fun _ => Attempt.isQuiet_pure _
    exact hscan.bind fun entries =>
      Attempt.isQuiet_mapM (fun entry => f.isQuiet_decodeStored entry.1 entry.2 fields) entries
  | update key fields => exact f.isQuiet_update key fields
  | insert key fields =>
    exact (Attempt.isQuiet_ofProgram (Row.tallies_encode fields)).bind fun _ =>
      (isQuiet_attempt _).bind fun _ => Attempt.isQuiet_pure _
  | delete key => exact (isQuiet_attempt _).bind fun _ => Attempt.isQuiet_pure _
  | filter low high fields =>
    refine (Attempt.isQuiet_ofExcept _).bind fun predicate => ?_
    exact (isQuiet_attempt _).bind fun entries => Attempt.isQuiet_filterMapM
      (fun entry => f.isQuiet_match? predicate fields entry.1 entry.2) entries

end SchemalessFormat

namespace ColumnarFormat

variable (f : ColumnarFormat)

theorem isQuiet_decodeStored (slots : Slots) (fields : Selection) :
    (f.decodeStored slots fields : Attempt ι Row).IsQuiet := by
  cases fields with
  | some wanted => exact f.layout.isQuiet_select wanted slots
  | none => exact f.layout.isQuiet_decode slots

theorem isQuiet_attempt (call : TupleCall) : call.attempt.IsQuiet := Program.tallies_call _

/-- The format leaves it to others to tell of operations. -/
theorem isQuiet_perform [Machine] (op : Operation) : (f.perform op).IsQuiet := by
  cases op with
  | read key fields =>
    refine (isQuiet_attempt _).bind fun found => ?_
    cases found with
    | none => exact Attempt.isQuiet_pure _
    | some slots => exact (f.isQuiet_decodeStored slots fields).bind fun _ => Attempt.isQuiet_pure _
  | scan start count fields =>
    have hscan : (TupleCall.scan start count).IsQuiet := by
      rw [TupleCall.scan]
      split
      · exact Attempt.isQuiet_pure _
      · exact (isQuiet_attempt _).bind fun _ => Attempt.isQuiet_pure _
    exact hscan.bind fun tuples =>
      Attempt.isQuiet_mapM (fun slots => f.isQuiet_decodeStored slots fields) tuples
  | update key fields =>
    refine (isQuiet_attempt _).bind fun found => ?_
    cases found with
    | none => exact Attempt.isQuiet_pure _
    | some slots =>
      exact (f.layout.isQuiet_overlaid slots fields).bind fun _ =>
        (isQuiet_attempt _).bind fun _ => Attempt.isQuiet_pure _
  | insert key fields =>
    exact (f.layout.isQuiet_encode key fields).bind fun _ =>
      (isQuiet_attempt _).bind fun _ => Attempt.isQuiet_pure _
  | delete key => exact (isQuiet_attempt _).bind fun _ => Attempt.isQuiet_pure _
  | filter low high fields =>
    refine (Attempt.isQuiet_ofExcept _).bind fun predicate => ?_
    refine (Attempt.isQuiet_ofExcept _).bind fun positions => ?_
    refine (isQuiet_attempt _).bind fun tuples => ?_
    refine Attempt.isQuiet_filterMapM (fun slots => ?_) tuples
    rw [match?]
    split
    · exact (f.isQuiet_decodeStored slots fields).bind fun _ => Attempt.isQuiet_pure _
    · exact Attempt.isQuiet_pure _

end ColumnarFormat

/-! ## Planning -/

namespace Drawing

/-- On every way the drawing tells of the operations listed, whichever worker draws. -/
def Tallies (d : Drawing ι α) (sensors : List Sensor) : Prop :=
  ∀ worker : Worker, (d.run.run worker).Tallies sensors

/-- The drawing tells of no operation. -/
abbrev IsQuiet (d : Drawing ι α) : Prop := d.Tallies []

variable {sensors : List Sensor}

theorem isQuiet_pure (a : α) : (pure a : Drawing ι α).IsQuiet := fun _ => Program.tallies_done _

theorem isQuiet_ofExcept (result : Except Failure α) : (ofExcept result : Drawing ι α).IsQuiet :=
  fun _ => Program.tallies_done _

theorem isQuiet_get : (get : Drawing ι Worker).IsQuiet := fun _ => Program.tallies_done _

theorem isQuiet_modify (change : Worker → Worker) :
    (modify change : Drawing ι PUnit).IsQuiet := fun _ => Program.tallies_done _

theorem tallies_lift {p : Program ι α} (h : p.Tallies sensors) :
    (lift p : Drawing ι α).Tallies sensors := by
  intro worker
  have hlift := (h.bind fun a => Program.tallies_done (a, worker)).bind fun result =>
    Program.tallies_done ((.ok result.1 : Except Failure α), result.2)
  rwa [List.append_nil, List.append_nil] at hlift

/-- What comes after the operations are told of need not be reached. -/
theorem Tallies.bind {d : Drawing ι β} {f : β → Drawing ι α} (hd : d.Tallies sensors)
    (hf : ∀ b, (f b).IsQuiet) : (d >>= f).Tallies sensors := by
  intro worker
  rw [← List.append_nil sensors]
  refine Program.Tallies.bind (hd worker) fun result => ?_
  obtain ⟨failure | b, worker⟩ := result
  · exact Program.tallies_done _
  · exact hf b worker

theorem isQuiet_reported {draw : Random.Stream → Program ι (α × Random.Stream)}
    (h : ∀ s, (draw s).Tallies []) : (reported draw).IsQuiet :=
  isQuiet_get.bind fun worker => (tallies_lift (h worker.stream)).bind fun _ =>
    (isQuiet_modify _).bind fun _ => isQuiet_pure _

theorem isQuiet_fromStream (draw : Random.Stream → α × Random.Stream) :
    (fromStream draw : Drawing ι α).IsQuiet := isQuiet_reported fun _ => Program.tallies_done _

theorem isQuiet_filler [Machine] (length : Nat) : (filler length : Drawing ι Bytes).IsQuiet := by
  refine isQuiet_get.bind fun worker => (isQuiet_ofExcept _).bind fun filled => ?_
  have hreset : (filled.2.reset : Program ι BytePool).Tallies [] :=
    (Program.tallies_click_of_not_isTally rfl).bind fun _ => Program.tallies_done _
  exact (tallies_lift hreset).bind fun _ => (isQuiet_modify _).bind fun _ => isQuiet_pure _

theorem isQuiet_mapM {f : β → Drawing ι α} (xs : List β) (h : ∀ x, (f x).IsQuiet) :
    (xs.mapM f).IsQuiet := by
  induction xs with
  | nil => exact isQuiet_pure []
  | cons x xs ih =>
    rw [List.mapM_cons]
    exact (h x).bind fun _ => ih.bind fun _ => isQuiet_pure _

end Drawing

namespace Workload

variable (w : Workload)

theorem isQuiet_drawKey : w.drawKey.IsQuiet :=
  (Drawing.isQuiet_fromStream _).bind fun _ => Drawing.isQuiet_pure _

theorem isQuiet_drawField [Machine] (i : Nat) : (w.drawField i).IsQuiet := by
  have hvalue : (w.drawValue i).IsQuiet := by
    unfold drawValue
    split
    · exact Drawing.isQuiet_reported fun s =>
        (Program.tallies_click_of_not_isTally rfl).bind fun _ => Program.tallies_done _
    · exact Drawing.isQuiet_filler _
  exact hvalue.bind fun _ => Drawing.isQuiet_pure _

theorem isQuiet_drawRow [Machine] : w.drawRow.IsQuiet := Drawing.isQuiet_mapM _ w.isQuiet_drawField

theorem isQuiet_drawUpdate [Machine] : w.drawUpdate.IsQuiet := by
  unfold drawUpdate
  split
  · exact w.isQuiet_drawRow
  · exact (Drawing.isQuiet_fromStream _).bind fun i => (w.isQuiet_drawField i).bind fun _ =>
      Drawing.isQuiet_pure _

theorem isQuiet_drawSelection : w.drawSelection.IsQuiet := by
  unfold drawSelection
  split
  · exact Drawing.isQuiet_pure _
  · exact (Drawing.isQuiet_fromStream _).bind fun _ => Drawing.isQuiet_pure _

/-- A plan tells once of an operation of its kind. -/
theorem tallies_planOf [Machine] (kind : OperationKind) :
    (w.planOf kind).Tallies [.workloadOperation kind] := by
  have hclick : (Drawing.click (.workloadOperation kind) : Drawing workloadCalls Unit).Tallies
      [.workloadOperation kind] := Drawing.tallies_lift (Program.tallies_emit _)
  cases kind with
  | read =>
    exact hclick.bind fun _ => w.isQuiet_drawKey.bind fun _ => w.isQuiet_drawSelection.bind fun _ =>
      Drawing.isQuiet_pure _
  | scan =>
    exact hclick.bind fun _ => w.isQuiet_drawKey.bind fun _ =>
      (Drawing.isQuiet_fromStream _).bind fun _ => w.isQuiet_drawSelection.bind fun _ =>
        Drawing.isQuiet_pure _
  | update =>
    exact hclick.bind fun _ => w.isQuiet_drawKey.bind fun _ => w.isQuiet_drawUpdate.bind fun _ =>
      Drawing.isQuiet_pure _
  | insert =>
    exact hclick.bind fun _ => (Drawing.tallies_lift (Program.tallies_call _)).bind fun _ =>
      w.isQuiet_drawRow.bind fun _ => Drawing.isQuiet_pure _
  | delete => exact hclick.bind fun _ => w.isQuiet_drawKey.bind fun _ => Drawing.isQuiet_pure _
  | filter =>
    refine hclick.bind fun _ => w.isQuiet_drawSelection.bind fun fields => ?_
    have hrange : (Drawing.reported w.values.nextRange : Drawing workloadCalls _).IsQuiet := by
      refine Drawing.isQuiet_reported fun s => ?_
      refine (Program.tallies_click_of_not_isTally ?_).bind fun _ => Program.tallies_done _
      split <;> rfl
    exact hrange.bind fun _ => Drawing.isQuiet_pure _

/-- The plan of a task is one of some kind, with a worker that may have drawn the kind. -/
theorem exists_planOf [Machine] (task : Task) (worker : Worker) : ∃ kind drawn,
    (w.plan task).run.run worker = (w.planOf kind).run.run drawn := by
  cases task with
  | insert => exact ⟨.insert, worker, rfl⟩
  | transaction => exact ⟨_, _, rfl⟩
  | analytic => exact ⟨.filter, worker, rfl⟩

end Workload

end StoreBench
