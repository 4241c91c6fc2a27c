import StoreBench.Client.Session
/-!
# Benchmarks

A benchmark opens a store and drives it through up to three phases: loading records, running the
transactional mix, and running analytic beside transactional clients. The clients of a phase share
its work and its rate and draw from streams that start at evenly spaced seeds. Here they take
turns, one client after the other, the analytic ones first; the store is held open throughout by an
adapter that does nothing else.
-/

namespace StoreBench

structure BenchmarkOptions where
  /-- The name of the adapter. -/
  db : String := "basic"
  /-- The file with the properties of the engines; none if empty. -/
  properties : String := ""
  threads : Nat := 1
  load : Bool := false
  run : Bool := false
  htap : Bool := false
  analyticThreads : Nat := 1
  /-- The seconds after which analytic clients stop; never if zero. -/
  timeLimit : Nat := 0
  /-- Operations per second across all paced clients; unlimited if zero. -/
  targetThroughput : Nat := 0
  workload : WorkloadOptions := {}

/-- Why a benchmark ends early. -/
inductive Abort where
  /-- Something the benchmark itself did failed. -/
  | failed (what : String) (error : Error)
  /-- A client failed and ended the process. -/
  | client (error : Error)
  /-- The clock has no time so late that the limit is over. -/
  | noDeadline
  | fault
  | exhausted

/-- The store under test and the numbering of its records. -/
structure Bench where
  registry : Registry
  numbers : Numbering

abbrev BenchM := ExceptT Abort (StateM Bench)

/-- The seed of the client with an index among `threads`. -/
def seedFor (base : UInt64) (index threads : Nat) : UInt64 :=
  base + UInt64.ofNat ((UInt64.size - 1) / max threads 1 * index)

namespace BenchM

def inRegistry {α : Type} (step : RegistryM α) : BenchM α :=
  ExceptT.lift fun b =>
    let (a, registry) := step b.registry
    (a, { b with registry })

/-- Go on with a result, or end saying what failed. -/
def orFail {α : Type} (what : String) : Except Failure α → BenchM α
  | .ok a => return a
  | .error (.raised error) => throw (.failed what error)
  | .error .fault => throw .fault
  | .error .exhausted => throw .exhausted

def createAdapter (db : String) : BenchM Adapter := do
  orFail "could not create adapter" (← inRegistry (Adapter.create db))

/-- Run a client to its end on an adapter of its own: the number of tasks it performed. -/
def runClient [Machine] (db : String) (w : Workload) (limiter : Option RateLimiter)
    (raised : List Flag) (c : Client) : BenchM Nat := do
  let adapter ← createAdapter db
  let b ← get
  let (result, s) :=
    (Session.run w c.runDetached).run ⟨b.registry, b.numbers, adapter, ⟨1⟩, limiter, raised⟩
  set (⟨s.registry, s.numbers⟩ : Bench)
  match result with
  | .error (.raised error) => throw (.client error)
  | .error .fault => throw .fault
  | .error .exhausted => throw .exhausted
  | .ok done =>
    inRegistry s.adapter.abandon
    return done

end BenchM

namespace Benchmark

open BenchM

variable [Machine] (o : BenchmarkOptions) (w : Workload)

/-- The number of clients that load, run or transact. -/
def threadCount : Nat := max o.threads 1

/-- The number of analytic clients. -/
def analyticCount : Nat := max o.analyticThreads 1

/-- The client with an index among `threads`. -/
def client (mode : Mode) (ops index threads : Nat) (limiter : Option RateLimiter) : Client where
  mode
  ops
  paced := limiter.isSome
  seed := seedFor o.workload.seed index threads
  valuePoolSize := o.workload.valuePoolSize

/-- The client of a loading or running phase with an index. -/
def phaseClient (mode : Mode) (total : Nat) (limiter : Option RateLimiter) (index : Nat) : Client :=
  client o mode (share total index (threadCount o)) index (threadCount o) limiter

/-- The analytic client with an index. -/
def analyticClient (total index : Nat) : Client :=
  client o .analytic (share total index (analyticCount o)) index (analyticCount o) none

/-- The transactional client with an index, numbered after the analytic ones. It has as many tasks
as a machine word counts. -/
def transactionalClient (limiter : Option RateLimiter) (index : Nat) : Client :=
  client o .transactional (UInt64.size - 1) (analyticCount o + index)
    (analyticCount o + threadCount o) limiter

/-- Bring the threads of a phase to a number, before any of those added gets its turn. More than
the machine has for a process are a fault. -/
def holdThreads (count : Nat) : BenchM Unit :=
  if count ≤ Machine.threads then return else throw .fault

/-- Go on with a result about the target throughput. -/
def orFailTarget {α : Type} (result : Except (FailureOf Misconfiguration) α) : BenchM α :=
  orFail "invalid target throughput" (result.mapError (.map .configuration))

/-- A limiter for each of the clients that are paced, if any is. They join `others` that are not. -/
def limiters (threads others : Nat) : BenchM (List (Option RateLimiter)) := do
  orFailTarget (if o.targetThroughput = 0 then reserve threads 8
    else checkSplit o.targetThroughput threads)
  holdThreads (others + threads)
  if o.targetThroughput = 0 then return List.replicate threads none
  return (← orFailTarget (RateLimiter.forThreads? o.targetThroughput threads)).map some

/-- Split `total` tasks across the clients: the number of tasks performed. -/
def phase (mode : Mode) (total : Nat) : BenchM Nat := do
  let limiters ← limiters o (threadCount o) 0
  let done ← limiters.zipIdx.mapM fun (limiter, index) =>
    runClient o.db w limiter [] (phaseClient o mode total limiter index)
  return done.foldl (· + ·) 0

/-- Whether a clock that counts seconds in 63 bits, and has counted at least one, can show the time
at which a limit is over. -/
abbrev HasDeadline (limit : Nat) : Prop := limit + 1 < 1 <<< 63

/-- Analytic clients share `total` tasks; transactional ones run until those are done. A limit
without a deadline is noticed at the end. -/
def htapPhase (total : Nat) : BenchM Unit := do
  holdThreads (analyticCount o)
  (List.range (analyticCount o)).forM fun index =>
    discard (runClient o.db w none [] (analyticClient o total index))
  let limiters ← limiters o (threadCount o) (analyticCount o)
  limiters.zipIdx.forM fun (limiter, index) =>
    discard (runClient o.db w limiter [.analyticDone] (transactionalClient o limiter index))
  if ¬HasDeadline o.timeLimit then throw .noDeadline

/-- The phases asked for. Without loading, the records count as loaded before. -/
def phases : BenchM Unit := do
  if o.load then discard (phase o w .load o.workload.recordCount)
  else modify fun b => { b with numbers := b.numbers.assumeLoaded o.workload.recordCount }
  if o.run then discard (phase o w .run o.workload.operationCount)
  if o.htap then htapPhase o w o.workload.operationCount

/-- The properties of the engines, with the shape of the workload's rows. -/
def propertiesWith (p : Properties) : Properties :=
  (p.set Properties.fieldCountKey (toString o.workload.fieldCount)).set Properties.fieldStemKey
    o.workload.fieldStem

/-- Run the benchmark on a fresh process with the given properties: the summary of its operations,
or why there is none. -/
def summary (p : Properties) : Except Abort (List Measured.Line) :=
  let (result, b) := (session.run).run ⟨Registry.standard (propertiesWith o p), .start⟩
  result.map fun _ => Measured.summary b.registry.journal
where
  session : BenchM Unit := do
    let w ← orFail "invalid workload"
      (← inRegistry (Registry.runSilent (Workload.build o.workload).run))
    let keeper ← createAdapter o.db
    let (result, keeper) ← inRegistry keeper.init
    orFail "could not initialize adapter" result
    phases o w
    let (result, _) ← inRegistry keeper.cleanup
    orFail "could not clean up adapter" result

end Benchmark

end StoreBench
