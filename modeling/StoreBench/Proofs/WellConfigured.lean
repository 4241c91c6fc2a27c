import Mathlib.Logic.Function.Basic
import StoreBench.Proofs.Tasks
/-!
# Benchmarks that never fail

A team of clients performs tasks on one engine in memory, one whole task after the other, in any
order. If the filler of the workload fits memory, and a key-value engine can encode its names and
values, every task is answered and the engine holds rows of the workload only. After the load phase
every task is a success as long as the mix has no deletes.
-/

namespace StoreBench

open Session

/-! ## Tasks on a table -/

variable {w : Workload} {kind : EngineKind} {t : Table} {r : Registry}

namespace Workload

/-- What the engines of a kind ask of a workload, beside memory for its filler. -/
structure Suits [Machine] (w : Workload) (kind : EngineKind) : Prop where
  filler_fits : w.FillerFits
  slots_fit : w.options.fieldCount + 1 < UInt64.size
  encodes : kind = .keyValue → w.Encodes

/-- Planning does not fail where memory holds the filler. -/
theorem Suits.not_fillerFails [Machine] (h : w.Suits kind) (number : Option UInt64)
    (failure : Failure) :
    ¬ w.FillerFails (.planning number) failure := by
  rintro ⟨hcount, hreserve⟩
  rw [reserve_eq_ok_iff.2 (h.filler_fits hcount)] at hreserve
  cases hreserve

/-- Updates that are issued name stored fields. -/
theorem namesStored [Machine] {ea : EngineAdapter} {f : SchemalessFormat}
    (hbinding : ea.binding = some (.keyValue 0 f)) (hr : r.HoldsRows t) (ht : w.Fills t)
    {number : Option UInt64} {op : Operation} (hop : w.Issues number op) :
    (Adapter.engine ea).NamesStored r op := by
  cases op with
  | update key updates =>
    intro value row hvalue hdecode
    have hrow := ht key row (Adapter.getElem?_of_storedValue? hbinding hr hvalue hdecode)
    exact Row.firstUnknown?_eq_none_iff.1 (hrow.firstUnknown? hop.2)
  | _ => trivial

/-- An operation that is issued on an engine with a table of the workload is answered as the table
answers it. -/
theorem Suits.perform [Machine] (h : w.Suits kind) {number : Option UInt64} {op : Operation}
    (hop : w.Issues number op) {a : Adapter} (ha : a.IsBoundTo w.layout kind)
    (hr : r.HoldsTable w.layout kind t) (ht : w.Fills t) :
    ((a.perform op).run r).1 = (t.perform w.options.fieldCount op).1 ∧
      ((a.perform op).run r).2.HoldsTable w.layout kind (t.perform w.options.fieldCount op).2 := by
  obtain ⟨ea, rfl, hbinding⟩ := ha
  cases kind with
  | tuple => exact Adapter.perform_tuple hbinding h.slots_fit hr hop.conforms
  | keyValue =>
    have hencodable := (h.encodes rfl).operation hop
    obtain ⟨mergesUpdates, hbinding⟩ := hbinding
    cases mergesUpdates with
    | true =>
      exact Adapter.perform_merging hbinding hr hencodable (namesStored hbinding hr ht hop)
    | false =>
      have hadmits : t.Admits op := by
        obtain ⟨e, -, hholds, -⟩ := id hr
        exact hholds.admits hencodable
      exact Adapter.perform_overlaying hbinding hr hadmits

variable (w) in
/-- Every row stored in an engine is one of the workload: encoded, or as the slots behind its
key. -/
def Describes : Contents → Prop
  | .keyValue entries => ∀ (key value : Bytes), entries[key]? = some value →
      ∃ row, Row.decode? value = .ok row ∧ w.IsRow row
  | .tuple tuples => ∀ (key : Bytes) (slots : Slots), tuples[key]? = some slots →
      ∃ row, slots = ColumnLayout.slots key row ∧ w.IsRow row

theorem describes_of_holdsTable {a : Adapter} (ha : a.IsBoundTo w.layout kind)
    (hr : r.HoldsTable w.layout kind t) (ht : w.Fills t) :
    ∃ contents, a.stored r = some contents ∧ w.Describes contents := by
  obtain ⟨ea, rfl, hbinding⟩ := ha
  cases kind with
  | keyValue =>
    obtain ⟨mergesUpdates, hbinding⟩ := hbinding
    refine ⟨_, Adapter.stored_of_holdsRows hbinding hr, fun key value hvalue => ?_⟩
    rw [Std.ExtTreeMap.getElem?_map] at hvalue
    obtain ⟨row, hrow, rfl⟩ := Option.map_eq_some_iff.1 hvalue
    obtain ⟨e, -, hholds, -⟩ := hr
    exact ⟨row, Row.decode?_eq_ok_iff.2 ⟨hholds.encodable key row hrow, rfl⟩, ht key row hrow⟩
  | tuple =>
    refine ⟨_, Adapter.stored_of_holdsTuples hbinding hr, fun key slots hslots => ?_⟩
    rw [Std.ExtTreeMap.getElem?_map] at hslots
    obtain ⟨row, hrow, rfl⟩ := Option.map_eq_some_iff.1 hslots
    exact ⟨row, rfl, ht key row hrow⟩

end Workload

/-! ## Teams of clients -/

/-- Clients that take turns: the registry and the numbering of records they share, and the worker of
each. -/
structure Team (clients : List Adapter) where
  registry : Registry
  numbers : Numbering
  workers : Fin clients.length → Worker

namespace Team

variable {clients : List Adapter}

/-- The session of a client. -/
def session (team : Team clients) (i : Fin clients.length) : Session :=
  ⟨team.registry, team.numbers, clients.get i, ⟨1⟩, none, []⟩

/-- A client performs a whole task. -/
def turn [Machine] (w : Workload) (i : Fin clients.length) (task : Task) :
    StateM (Team clients) (Except Failure Bool) := fun team =>
  let ((answer, worker), s) :=
    (answerClient w (.perform task (team.workers i))).run (team.session i)
  (answer, ⟨s.registry, s.numbers, Function.update team.workers i worker⟩)

/-- Clients take their turns in the order of a schedule. -/
def run [Machine] (w : Workload) (schedule : List (Fin clients.length × Task)) :
    StateM (Team clients) (List (Except Failure Bool)) :=
  schedule.mapM fun (i, task) => turn w i task

/-- The clients are bound to an engine that holds a table of the workload. -/
structure Drives (team : Team clients) (w : Workload) (kind : EngineKind) (t : Table) : Prop where
  bound : ∀ a ∈ clients, a.IsBoundTo w.layout kind
  held : team.registry.HoldsTable w.layout kind t
  fills : w.Fills t

/-! ### One turn -/

/-- What comes of a turn that issues an operation: it is answered, and a success if the operation
finds its key. -/
structure Turned [Machine] (team : Team clients) (w : Workload) (kind : EngineKind) (t : Table)
    (task : Task)
    (op : Operation) (answer : Except Failure Bool) (after : Team clients) : Prop where
  chosen : w.Chooses task op.kind
  issued : ∃ number, team.numbers.Hands number after.numbers ∧ w.Issues number op
  answered : ∃ succeeded, answer = .ok succeeded ∧ (succeeded = true ↔ t.Finds op)
  drives : after.Drives w kind (t.perform w.options.fieldCount op).2

variable [Machine] {team : Team clients} {a : Adapter} (hsuits : w.Suits kind)
  (hteam : team.Drives w kind t)

include hsuits hteam

/-- Every turn issues an operation. -/
theorem exists_turned (i : Fin clients.length) (task : Task) :
    ∃ op, team.Turned w kind t task op ((turn w i task).run team).1
      ((turn w i task).run team).2 := by
  have hbound : (team.session i).adapter.IsBoundTo w.layout kind :=
    hteam.bound _ (List.get_mem clients i)
  have hspec := perform_task w task (team.workers i) (team.session i)
  rcases hperformed : (answerClient w (.perform task (team.workers i))).run (team.session i) with
    ⟨⟨answer, worker⟩, after⟩
  have hturn : (turn w i task).run team =
      (answer, ⟨after.registry, after.numbers, Function.update team.workers i worker⟩) :=
    congrArg (fun performed : (Except Failure Bool × Worker) × Session =>
      (performed.1.1, (⟨performed.2.registry, performed.2.numbers,
        Function.update team.workers i performed.1.2⟩ : Team clients))) hperformed
  rw [hperformed] at hspec
  rw [hturn]
  rcases hspec with
    ⟨number, failure, -, hfails, -⟩ | ⟨⟨op, outcome⟩, rfl, hperforms⟩
  · exact (hsuits.not_fillerFails number failure hfails).elim
  · obtain ⟨number, planned, hplans, hchosen, hop, houtcome, registry, hagrees, rfl⟩ := hperforms
    obtain ⟨journaled, numbers, hagrees', hhands, rfl⟩ := hplans
    obtain ⟨hresult, hheld⟩ :=
      hsuits.perform hop hbound (hteam.held.of_agreesButJournal hagrees') hteam.fills
    obtain ⟨result, hok, hsucceeded⟩ := hteam.fills.answer hop
    refine ⟨op, hchosen, ⟨number, hhands, hop⟩, ⟨op.succeeded result, ?_, hsucceeded⟩,
      hteam.bound, hheld.of_agreesButJournal hagrees, hteam.fills.perform hop⟩
    rw [Workload.Issued.success, houtcome, hresult, hok]
    rfl

/-! ### Any number of turns -/

/-- Every task is answered. -/
theorem run_answers (schedule : List (Fin clients.length × Task)) :
    (∀ answer ∈ ((run w schedule).run team).1, ∃ succeeded, answer = .ok succeeded) ∧
      ∃ t', ((run w schedule).run team).2.Drives w kind t' := by
  induction schedule generalizing team t with
  | nil => exact ⟨nofun, t, hteam⟩
  | cons call schedule ih =>
    obtain ⟨op, hturned⟩ := exists_turned hsuits hteam call.1 call.2
    obtain ⟨hanswers, hdrives⟩ := ih hturned.drives
    obtain ⟨succeeded, hanswer, -⟩ := hturned.answered
    rw [run, run_mapM_cons]
    exact ⟨List.forall_mem_cons.2 ⟨⟨succeeded, hanswer⟩, hanswers⟩, hdrives⟩

/-- Every task succeeds while all records are there. -/
theorem run_succeeds (hdelete : ¬ w.Chooses .transaction .delete)
    (hrecords : t.HasRecords w.options.recordCount) (schedule : List (Fin clients.length × Task)) :
    ∀ answer ∈ ((run w schedule).run team).1, answer = .ok true := by
  induction schedule generalizing team t with
  | nil => exact nofun
  | cons call schedule ih =>
    obtain ⟨op, hturned⟩ := exists_turned hsuits hteam call.1 call.2
    obtain ⟨number, -, hop⟩ := hturned.issued
    obtain ⟨succeeded, hanswer, hsucceeded⟩ := hturned.answered
    rw [hsucceeded.2 (hop.finds hrecords)] at hanswer
    rw [run, run_mapM_cons]
    refine List.forall_mem_cons.2 ⟨hanswer, ih hturned.drives ?_⟩
    exact hrecords.perform (hturned.chosen.ne_delete hdelete) _

/-- Inserting record after record. -/
theorem run_loads {schedule : List (Fin clients.length × Task)}
    (hinserts : ∀ call ∈ schedule, call.2 = .insert)
    (hrecords : t.HasRecords team.numbers.next.toNat)
    (hfits : team.numbers.next.toNat + schedule.length < UInt64.size) :
    (∀ answer ∈ ((run w schedule).run team).1, answer = .ok true) ∧
      ∃ t', ((run w schedule).run team).2.Drives w kind t' ∧
        t'.HasRecords (team.numbers.next.toNat + schedule.length) := by
  induction schedule generalizing team t with
  | nil => exact ⟨nofun, t, hteam, hrecords⟩
  | cons call schedule ih =>
    obtain ⟨hinsert, hrest⟩ := List.forall_mem_cons.1 hinserts
    rw [List.length_cons] at hfits
    obtain ⟨op, hturned⟩ := exists_turned hsuits hteam call.1 call.2
    have hchosen := hturned.chosen
    rw [hinsert] at hchosen
    obtain ⟨number, hhands, hop⟩ := hturned.issued
    obtain ⟨succeeded, hanswer, hsucceeded⟩ := hturned.answered
    have hdrives := hturned.drives
    cases op with
    | insert key row =>
      obtain ⟨⟨taken, rfl, rfl⟩, -⟩ := hop
      obtain ⟨rfl, hafter⟩ := Prod.mk.inj hhands
      have hnext : ((turn w call.1 call.2).run team).2.numbers.next.toNat =
          team.numbers.next.toNat + 1 := by
        rw [← hafter]
        exact Numbering.toNat_next_take (by omega)
      have hrecords' := hrecords.insert row w.options.fieldCount
      rw [← hnext] at hrecords'
      obtain ⟨hanswers, t', hdrives, hloaded⟩ := ih hturned.drives hrest hrecords' (by omega)
      rw [hsucceeded.2 trivial] at hanswer
      rw [run, run_mapM_cons]
      refine ⟨List.forall_mem_cons.2 ⟨hanswer, hanswers⟩, t', hdrives, ?_⟩
      rwa [hnext, Nat.add_right_comm] at hloaded
    | _ => cases hchosen

omit [Machine] hsuits in
theorem Drives.describes (hclient : a ∈ clients) :
    ∃ contents, a.stored team.registry = some contents ∧ w.Describes contents :=
  Workload.describes_of_holdsTable (hteam.bound a hclient) hteam.held hteam.fills

/-! ### Filler that does not fit -/

omit hsuits hteam

/-- An insert whose filler memory does not hold has no answer of its own. -/
theorem turn_insert_of_not_fillerFits (hfits : ¬ w.FillerFits) (i : Fin clients.length) :
    ∃ failure, (reserve w.options.fieldLength 1 : Except Failure Unit) = .error failure ∧
      ((turn w i .insert).run team).1 = .error failure := by
  rcases perform_task w .insert (team.workers i) (team.session i) with
    ⟨number, failure, hanswer, ⟨-, hreserve⟩, -⟩ | ⟨⟨op, outcome⟩, -, hperforms⟩
  · exact ⟨failure, hreserve, hanswer⟩
  · obtain ⟨number, planned, -, hchosen, hop, -⟩ := hperforms
    cases op with
    | insert key row => exact absurd hop.2.2 hfits
    | _ => cases hchosen

/-- A key-value engine refuses an insert whose filler it cannot encode. -/
theorem turn_insert_of_long_filler (hteam : team.Drives w .keyValue t)
    (hcount : 1 < w.options.fieldCount) (hlong : UInt32.size ≤ w.options.fieldLength)
    (hfits : FitsMemory w.options.fieldLength 1) (i : Fin clients.length) :
    ∃ cause, ((turn w i .insert).run team).1 = .error (.raised (.invalidArgument cause)) := by
  rcases perform_task w .insert (team.workers i) (team.session i) with
    ⟨number, failure, -, ⟨-, hreserve⟩, -⟩ | ⟨⟨op, outcome⟩, hanswer, hperforms⟩
  · rw [reserve_eq_ok_iff.2 hfits] at hreserve
    cases hreserve
  · obtain ⟨number, planned, hplans, hchosen, hop, houtcome, -⟩ := hperforms
    obtain ⟨journaled, numbers, hagrees, -, rfl⟩ := hplans
    cases op with
    | insert key row =>
      obtain ⟨-, hrow, -⟩ := hop
      have hsecond : row[1]? = some _ := List.getElem?_eq_getElem (hrow.1 ▸ hcount)
      have hencode : ¬ row.Encodable := by
        intro hencodable
        have hvalue := (hencodable _ (List.mem_of_getElem? hsecond)).2
        have hlength := (hrow.2 1 _ hsecond).2
        rw [Workload.HasValue, if_neg Nat.one_ne_zero] at hlength
        omega
      obtain ⟨ea, hea, mergesUpdates, hbinding⟩ := hteam.bound _ (List.get_mem clients i)
      obtain ⟨part, length, hrefused, -⟩ := Adapter.perform_insert_refused hbinding
        (hteam.held.of_agreesButJournal hagrees : journaled.HoldsRows t) hencode key
      have hrefused' : (((clients.get i).perform (.insert key row)).run journaled).1 =
          .error (.raised (.invalidArgument (.longPart part length))) := by
        rw [hea]
        exact hrefused
      refine ⟨.longPart part length, hanswer.trans ?_⟩
      rw [Workload.Issued.success, houtcome]
      exact congrArg (Except.map _) hrefused'
    | _ => cases hchosen

end Team

/-! ## Benchmarks -/

namespace Workload

variable {b : BenchmarkOptions} {p : Properties} {count : Nat} {clients : List Adapter}

theorem suits_of_build [Machine] (hbuild : (build (ι := .silent) b.workload).run.value = .ok w)
    (hfiller : 1 < b.workload.fieldCount → FitsMemory b.workload.fieldLength 1)
    (hencodes : kind = .keyValue → w.Encodes) : w.Suits kind := by
  have hoptions := (of_build hbuild).1
  refine ⟨?_, hoptions ▸ fieldCount_lt_of_build hbuild, hencodes⟩
  rw [FillerFits, hoptions]
  exact hfiller

/-- Adapters connected with the properties of the benchmark drive an empty engine. -/
theorem drives_of_connectAll [Machine] (kind : EngineKind)
    (hbuild : (build (ι := .silent) b.workload).run.value = .ok w)
    (hclients : (Adapter.connectAll kind.memoryName count).run
      (.standard (Benchmark.propertiesWith b p)) = (.ok clients, r)) (hnonempty : clients ≠ [])
    (numbers : Numbering) (workers : Fin clients.length → Worker) :
    Team.Drives (⟨r, numbers, workers⟩ : Team clients) w kind ∅ := by
  have hbound := Adapter.connectAll_bound (describe_of_build hbuild p) hclients
  obtain ⟨a, ha⟩ := List.exists_mem_of_ne_nil clients hnonempty
  exact ⟨fun a ha => (hbound a ha).2, (hbound a ha).1, Fills.empty⟩

end Workload

namespace Team

variable {b : BenchmarkOptions} {p : Properties} {name : String} {count : Nat}
  {clients : List Adapter}

/-- Clients of a benchmark on an engine in memory, whose filler memory holds and whose names and
values a key-value engine can encode: every task of every schedule is answered, and the engine holds
rows of the workload only. If the schedule starts by loading all records and the mix has no deletes,
every task is a success. -/
theorem never_fails [Machine]
    (hbuild : (Workload.build (ι := .silent) b.workload).run.value = .ok w)
    (hname : name = "memory" ∨ name = "tuple")
    (hclients : (Adapter.connectAll name count).run (.standard (Benchmark.propertiesWith b p)) =
      (.ok clients, r))
    (hfiller : 1 < b.workload.fieldCount → FitsMemory b.workload.fieldLength 1)
    (hencodes : name = "memory" → w.Encodes) (numbers : Numbering)
    (workers : Fin clients.length → Worker) (schedule : List (Fin clients.length × Task)) :
    let finished := (run w schedule).run ⟨r, numbers, workers⟩
    (∀ answer ∈ finished.1, ∃ succeeded, answer = .ok succeeded) ∧
      (∀ a ∈ clients, ∃ contents, a.stored finished.2.registry = some contents ∧
        w.Describes contents) ∧
      (numbers = .start → ¬ 0.0 < b.workload.deleteProportion →
        b.workload.recordCount < UInt64.size →
        ∀ loads rest, schedule = loads ++ rest → loads.length = b.workload.recordCount →
          (∀ call ∈ loads, call.2 = .insert) → ∀ answer ∈ finished.1, answer = .ok true) := by
  intro finished
  obtain ⟨kind, rfl⟩ := EngineKind.exists_memoryName hname
  have hsuits : w.Suits kind := Workload.suits_of_build hbuild hfiller fun hkind =>
    hencodes (congrArg EngineKind.memoryName hkind)
  -- Without clients nobody takes a turn.
  by_cases hnonempty : clients = []
  · subst hnonempty
    obtain rfl : schedule = [] := List.eq_nil_iff_forall_not_mem.2 fun call _ => call.1.elim0
    exact ⟨nofun, nofun, fun _ _ _ _ _ _ _ _ => nofun⟩
  have hteam : Drives ⟨r, numbers, workers⟩ w kind ∅ :=
    Workload.drives_of_connectAll kind hbuild hclients hnonempty numbers workers
  obtain ⟨hanswers, t, hfinished⟩ := run_answers hsuits hteam schedule
  refine ⟨hanswers, fun a ha => hfinished.describes ha, ?_⟩
  rintro rfl hdelete hrecords loads rest rfl hlength hinserts
  have hoptions := (Workload.of_build hbuild).1
  have hstart : (Numbering.start.next.toNat : Nat) = 0 := rfl
  obtain ⟨hloads, t', hloaded, hrecorded⟩ := run_loads hsuits hteam hinserts nofun
    (by rw [hstart, hlength]; omega)
  have hall : t'.HasRecords w.options.recordCount := by
    rwa [hstart, Nat.zero_add, hlength, ← hoptions] at hrecorded
  have hrest := run_succeeds hsuits hloaded (Workload.not_delete_of_build hbuild hdelete) hall rest
  have happend : finished.1 = ((run w loads).run ⟨r, .start, workers⟩).1 ++
      ((run w rest).run ((run w loads).run ⟨r, .start, workers⟩).2).1 :=
    congrArg Prod.fst (run_mapM_append _ loads rest _)
  intro answer hanswer
  rw [happend] at hanswer
  exact (List.mem_append.1 hanswer).elim (hloads answer) (hrest answer)

/-! ### A small benchmark

One record of two fields, the second of a given length. -/

def small (fieldLength : Nat) : BenchmarkOptions where
  workload := { recordCount := 1, fieldCount := 2, fieldLength,
                filter := { numDistinct := 1, valueLength := 1, selectionRate := 1.0 } }

def inMemory : Properties :=
  .ofList [("memory.storage_dir", "/memory"), ("memory.mergeupdate", "on")]

section

attribute [local instance] Machine.largest

theorem exists_built_small {fieldLength : Nat} (h : fieldLength ∈ [3, 2 ^ 32, 2 ^ 63]) :
    ∃ w, (Workload.build (ι := .silent) (small fieldLength).workload).run.value = .ok w ∧
      ∀ value ∈ w.values.values, value.length < UInt32.size := by
  have hbuilt : ∀ fieldLength ∈ [3, 2 ^ 32, 2 ^ 63],
      ((Workload.build (ι := .silent) (small fieldLength).workload).run.value.toOption.any fun w =>
        w.values.values.toList.all fun value => value.length < UInt32.size) = true := by
    decide +kernel
  obtain ⟨w, hw, hlength⟩ := exists_ok_of_any (hbuilt fieldLength h)
  refine ⟨w, hw, fun value hvalue => ?_⟩
  exact of_decide_eq_true (List.all_eq_true.1 hlength value (Array.mem_toList_iff.2 hvalue))

theorem exists_connected_small (fieldLength : Nat) :
    ∃ clients r, (Adapter.connectAll "memory" 2).run
      (.standard (Benchmark.propertiesWith (small fieldLength) inMemory)) = (.ok clients, r) ∧
        clients.length = 2 := by
  have hconnected : (((Adapter.connectAll "memory" 2).run
      (.standard (Benchmark.propertiesWith (small 0) inMemory))).1.toOption.any fun clients =>
        clients.length == 2) = true := by decide +kernel
  -- The length of a field is no property of an engine.
  have hsame : Benchmark.propertiesWith (small fieldLength) inMemory =
      Benchmark.propertiesWith (small 0) inMemory := rfl
  rw [hsame]
  generalize (Adapter.connectAll "memory" 2).run
    (.standard (Benchmark.propertiesWith (small 0) inMemory)) = connected at hconnected ⊢
  obtain ⟨clients, hclients, hlength⟩ := exists_ok_of_any hconnected
  exact ⟨clients, connected.2, Prod.ext hclients rfl, eq_of_beq hlength⟩

/-- Whatever two clients do after one of them has loaded the record. -/
theorem never_fails_small : ∃ w clients r,
    (Workload.build (ι := .silent) (small 3).workload).run.value = .ok w ∧
      (Adapter.connectAll "memory" 2).run
        (.standard (Benchmark.propertiesWith (small 3) inMemory)) = (.ok clients, r) ∧
      ∃ first : Fin clients.length, ∀ workers rest,
        ∀ answer ∈ ((run w ((first, .insert) :: rest)).run ⟨r, .start, workers⟩).1,
          answer = .ok true := by
  obtain ⟨w, hbuild, hvalues⟩ := exists_built_small (by decide : 3 ∈ [3, 2 ^ 32, 2 ^ 63])
  obtain ⟨clients, r, hclients, hlength⟩ := exists_connected_small 3
  have hoptions := (Workload.of_build hbuild).1
  have hencodes : w.Encodes := by
    refine ⟨?_, hvalues, ?_⟩
    · rw [hoptions]
      decide
    · rw [hoptions]
      decide
  refine ⟨w, clients, r, hbuild, hclients, ⟨0, by omega⟩, fun workers rest => ?_⟩
  have hnever := never_fails hbuild (.inl rfl) hclients (by decide) (fun _ => hencodes) .start
    workers ((⟨0, by omega⟩, .insert) :: rest)
  exact hnever.2.2 rfl (by decide +kernel) (by decide) [(⟨0, by omega⟩, .insert)] rest rfl rfl
    (by simp)

/-- Options that a workload accepts can ask for filler that the engine refuses to store, or that no
block of memory holds. -/
theorem fails_small :
    (∃ w clients r, (Workload.build (ι := .silent) (small (2 ^ 32)).workload).run.value = .ok w ∧
      (Adapter.connectAll "memory" 2).run
        (.standard (Benchmark.propertiesWith (small (2 ^ 32)) inMemory)) = (.ok clients, r) ∧
      ∃ first : Fin clients.length, ∀ workers, ∃ cause,
        ((run w [(first, .insert)]).run ⟨r, .start, workers⟩).1 =
          [.error (.raised (.invalidArgument cause))]) ∧
    ∃ w clients r, (Workload.build (ι := .silent) (small (2 ^ 63)).workload).run.value = .ok w ∧
      (Adapter.connectAll "memory" 2).run
        (.standard (Benchmark.propertiesWith (small (2 ^ 63)) inMemory)) = (.ok clients, r) ∧
      ∃ first : Fin clients.length, ∀ workers,
        ((run w [(first, .insert)]).run ⟨r, .start, workers⟩).1 = [.error .fault] := by
  constructor
  · obtain ⟨w, hbuild, -⟩ := exists_built_small (by decide : 2 ^ 32 ∈ [3, 2 ^ 32, 2 ^ 63])
    obtain ⟨clients, r, hclients, hlength⟩ := exists_connected_small (2 ^ 32)
    have hoptions := (Workload.of_build hbuild).1
    have hnonempty : clients ≠ [] := List.ne_nil_of_length_pos (by omega)
    refine ⟨w, clients, r, hbuild, hclients, ⟨0, by omega⟩, fun workers => ?_⟩
    have hteam := Workload.drives_of_connectAll .keyValue hbuild hclients hnonempty .start workers
    obtain ⟨cause, hrefused⟩ := turn_insert_of_long_filler hteam (by rw [hoptions]; decide)
      (by rw [hoptions]; decide) (by rw [hoptions]; decide) ⟨0, by omega⟩
    exact ⟨cause, congrArg (fun answer => [answer]) hrefused⟩
  · obtain ⟨w, hbuild, -⟩ := exists_built_small (by decide : 2 ^ 63 ∈ [3, 2 ^ 32, 2 ^ 63])
    obtain ⟨clients, r, hclients, hlength⟩ := exists_connected_small (2 ^ 63)
    have hoptions := (Workload.of_build hbuild).1
    have hfits : ¬ w.FillerFits := by
      rw [Workload.FillerFits, hoptions]
      decide
    refine ⟨w, clients, r, hbuild, hclients, ⟨0, by omega⟩, fun workers => ?_⟩
    have hfails : ∃ failure,
        (reserve w.options.fieldLength 1 : Except Failure Unit) = .error failure ∧
        ((turn w ⟨0, by omega⟩ .insert).run (⟨r, .start, workers⟩ : Team clients)).1 =
          .error failure := turn_insert_of_not_fillerFits hfits _
    obtain ⟨failure, hreserve, hanswer⟩ := hfails
    have hfault : (reserve w.options.fieldLength 1 : Except Failure Unit) = .error .fault := by
      rw [hoptions]
      exact reserve_eq_error_iff.2 (.inl ⟨rfl, by decide⟩)
    cases hfault.symm.trans hreserve
    exact congrArg (fun answer => [answer]) hanswer

end

end Team

end StoreBench
