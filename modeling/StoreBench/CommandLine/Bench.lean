import StoreBench.Benchmark
import StoreBench.CommandLine.Exit
import StoreBench.CommandLine.Machine
import StoreBench.CommandLine.Options
/-!
# The benchmark command

Reads the options of a benchmark and the properties of the engines, runs the benchmark, and prints
a line per kind of operation.
-/

namespace StoreBench.CommandLine.Bench

def usage : String :=
  "USAGE: ycsbint-bench [--db NAME] [--properties FILE] [--load] [--run] [--htap] " ++
    "[--workload-options]"

def settings : List (Setting BenchmarkOptions) := [
  ⟨"db", .text (·.db) fun s o => { o with db := s }⟩,
  ⟨"properties", .text (·.properties) fun s o => { o with properties := s }⟩,
  ⟨"threads", .number 64 (·.threads) fun n o => { o with threads := n }⟩,
  ⟨"load", .flag (·.load) fun b o => { o with load := b }⟩,
  ⟨"run", .flag (·.run) fun b o => { o with run := b }⟩,
  ⟨"htap", .flag (·.htap) fun b o => { o with htap := b }⟩,
  ⟨"ap-threads", .number 64 (·.analyticThreads) fun n o => { o with analyticThreads := n }⟩,
  ⟨"time-limit-secs", .number 64 (·.timeLimit) fun n o => { o with timeLimit := n }⟩,
  ⟨"target-throughput",
    .number 64 (·.targetThroughput) fun n o => { o with targetThroughput := n }⟩] ++
  Setting.nest "workload" (·.workload) (fun w o => { o with workload := w })
    WorkloadOptions.settings

/-- A text filled up with blanks to a width. -/
def padded (width : Nat) (s : String) : String :=
  s ++ String.ofList (List.replicate (width - s.length) ' ')

def summaryLine (line : Measured.Line) : String :=
  s!"{padded 8 line.kind.title} ok={padded 12 (toString line.done)} failed={line.failed}"

/-- Run the benchmark with the properties its options name, or say why it ended early. -/
def run (o : BenchmarkOptions) (files : String → Properties.FileRead) : Exit :=
  let properties :=
    if o.properties = "" then .ok .empty else Properties.ofFile? o.properties (files o.properties)
  match properties with
  | .error cause => failed "could not load properties" (.configuration cause)
  | .ok p =>
    match Benchmark.summary o p with
    | .ok lines => .success (lines.map summaryLine)
    | .error (.failed what error) => failed what error
    | .error (.client _) => .failure []
    | .error .noDeadline => .failure ["time limit thread: panicked"]
    | .error .fault => .fault
    | .error .exhausted => .exhausted
where
  failed (what : String) (error : Error) : Exit := .failure [what ++ ": " ++ error.message]

/-- The file with properties that a command line names, if it names one. -/
def propertiesFile? (args : List String) : Option String :=
  match parse settings {} args with
  | .ok p => if p.options.properties = "" then none else some p.options.properties
  | .error _ => none

/-- The whole command. -/
def command (args : List String) (files : String → Properties.FileRead) : Exit :=
  withOptions usage settings {} args fun o free =>
    if !free.isEmpty then .failure ["free arguments are not accepted", usage]
    else if !o.load && !o.run && !o.htap then
      .failure ["nothing to do: pass --load, --run, or --htap", usage]
    else run o files

end StoreBench.CommandLine.Bench
