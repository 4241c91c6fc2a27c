import StoreBench.Attempt
import StoreBench.Operation
import StoreBench.Workload.Mix
import StoreBench.Workload.Options
import StoreBench.Workload.Record
import StoreBench.Workload.Worker
/-!
# Workloads

A workload turns a worker's draws into operations. The first field of every row comes from a pool
of distinct values, so that filters over it select a predictable fraction of the rows; the other
fields are filler. Each call plans one operation and then issues it, and succeeds as the operation
does. Planning fails only over filler that memory cannot hold, and then nothing is issued.
-/

namespace StoreBench

open StoreBench.Random Skew

/-- What a workload asks for: the next record number, or an operation on the store. -/
inductive WorkloadCall where
  | takeNumber
  | perform (op : Operation)

abbrev WorkloadCall.Answer : WorkloadCall → Type
  | takeNumber => UInt64
  | perform op => Except Failure op.Result

abbrev workloadCalls : Interface := ⟨WorkloadCall, WorkloadCall.Answer⟩

/-- The three ways to be called. -/
inductive Task where
  /-- Insert the next record of the load phase. -/
  | insert
  /-- Issue an operation of the transactional mix. -/
  | transaction
  /-- Issue an analytic operation. -/
  | analytic
  deriving DecidableEq, Repr

structure Workload where
  options : WorkloadOptions
  mix : Mix
  keys : RankChooser
  values : DistinctPool
  keys_cardinality : keys.cardinality = options.recordCount
  fieldCount_pos : 0 < options.fieldCount
  maxScanLength_pos : 0 < options.maxScanLength

namespace Workload

variable [Machine]

/-- The memory the name of a field takes beside its characters, in bytes. -/
def nameSize : Nat := 24

/-- Check the options, build what the workload draws from, and make room for the names of the
fields. -/
def build {ι : Interface} (o : WorkloadOptions) : Attempt ι Workload := do
  if hf : 0 < o.fieldCount then
    if o.recordCount = 0 then refuse (.notPositive "record_count")
    else if hs : 0 < o.maxScanLength then
      match Mix.ofWeights? o.weights with
      | .error cause => refuse cause
      | .ok mix =>
        match hk : RankChooser.ofMode? o.requestDistribution o.recordCount o.zipfTheta with
        | .error e => Attempt.raise (.ofGenerator e)
        | .ok keys =>
          let values ← Attempt.ofProgram do return (← o.filter.build).mapError Error.ofGenerator
          Attempt.ofExcept (reserve o.fieldCount nameSize)
          return ⟨o, mix, keys, values, RankChooser.cardinality_ofMode? hk, hf, hs⟩
    else refuse (.notPositive "max_scan_length")
  else refuse (.notPositive "field_count")
where
  refuse (cause : Misconfiguration) : Attempt ι Workload := Attempt.raise (.configuration cause)

variable (w : Workload)

/-- The key of an existing record, or of one that could be. -/
def drawKey : Drawing workloadCalls Bytes := do return recordKey (← .fromStream w.keys.draw)

/-- The value of the field with an index. -/
def drawValue (i : Nat) : Drawing workloadCalls Bytes :=
  if i = 0 then .reported w.values.next else .filler w.options.fieldLength

def drawField (i : Nat) : Drawing workloadCalls Field := do
  return ⟨w.options.fieldName i, ← w.drawValue i⟩

/-- A row with every field, drawn in order. -/
def drawRow : Drawing workloadCalls Row := (List.range w.options.fieldCount).mapM w.drawField

/-- What an update writes: every field, or one. -/
def drawUpdate : Drawing workloadCalls Row := do
  if w.options.writeAllFields then w.drawRow
  else return [← w.drawField (← .below w.options.fieldCount)]

/-- What a query selects: every field, or one. -/
def drawSelection : Drawing workloadCalls Selection := do
  if w.options.readAllFields then return none
  else return some [w.options.fieldName (← .below w.options.fieldCount)]

/-! ## Plans -/

def planRead : Drawing workloadCalls Operation := do
  .click (.workloadOperation .read)
  return .read (← w.drawKey) (← w.drawSelection)

def planUpdate : Drawing workloadCalls Operation := do
  .click (.workloadOperation .update)
  return .update (← w.drawKey) (← w.drawUpdate)

def planInsert : Drawing workloadCalls Operation := do
  .click (.workloadOperation .insert)
  let number ← .lift (.call (ι := workloadCalls) .takeNumber)
  return .insert (recordKey number.toNat) (← w.drawRow)

def planScan : Drawing workloadCalls Operation := do
  .click (.workloadOperation .scan)
  return .scan (← w.drawKey) (1 + (← .below w.options.maxScanLength)) (← w.drawSelection)

def planDelete : Drawing workloadCalls Operation := do
  .click (.workloadOperation .delete)
  return .delete (← w.drawKey)

def planFilter : Drawing workloadCalls Operation := do
  .click (.workloadOperation .filter)
  let fields ← w.drawSelection
  let (low, high) ← .reported w.values.nextRange
  return .filter [⟨w.options.fieldName 0, low⟩] [⟨w.options.fieldName 0, high⟩] fields

def planOf : OperationKind → Drawing workloadCalls Operation
  | .read => w.planRead
  | .scan => w.planScan
  | .update => w.planUpdate
  | .insert => w.planInsert
  | .delete => w.planDelete
  | .filter => w.planFilter

/-- The operation of a task. -/
def plan : Task → Drawing workloadCalls Operation
  | .insert => w.planInsert
  | .transaction => do w.planOf (w.mix.choose (← .fromStream Stream.nextUnit))
  | .analytic => w.planFilter

/-- An operation that was issued, with what came of it. -/
structure Issued where
  op : Operation
  outcome : Except Failure op.Result

/-- Whether an issued operation succeeded, or why it has no result. -/
def Issued.success (i : Issued) : Except Failure Bool := i.outcome.map i.op.succeeded

/-- Plan the operation of a task and issue it, if there is one. The worker is the one after the
task. -/
def issue (task : Task) (worker : Worker) :
    Program workloadCalls (Except Failure Issued × Worker) := do
  match ← (w.plan task).run worker with
  | (.error failure, worker) => return (.error failure, worker)
  | (.ok op, worker) =>
    let outcome ← Program.call (ι := workloadCalls) (WorkloadCall.perform op)
    return (.ok ⟨op, outcome⟩, worker)

/-- Perform a task: whether it succeeded, and the worker after it. -/
def run (task : Task) (worker : Worker) : Program workloadCalls (Except Failure Bool × Worker) := do
  let (issued, worker) ← w.issue task worker
  return (issued.bind Issued.success, worker)

end Workload

end StoreBench
