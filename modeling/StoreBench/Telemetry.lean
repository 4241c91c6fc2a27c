import StoreBench.OperationKind
/-!
# Telemetry

Components report what they do as events: a click of a sensor or a log line. A reading is a count
over the events of a run, so sums of readings are sums of counts. The latency of an operation is
observed once per operation; its value is left to the clock and does not appear.
-/

namespace StoreBench

inductive Sensor where
  | valueChosen
  | rangeChosen
  | tailChosen
  | duplicateValue
  | poolReset
  | encode
  | decode
  | decodeFiltered
  | corrupt
  | merge
  | engineOpen
  | engineOpenFailed
  | engineClose
  | engineCloseFailed
  | adapterInit
  | adapterCleanup
  | adapterOperation (kind : OperationKind)
  | readNotFound
  | updateNotFound
  | adapterError
  | clientOperation
  | clientNotOk
  | stoppedEarly
  | clientFatal
  | measuredOk (kind : OperationKind)
  | measuredFailed (kind : OperationKind)
  | latency (kind : OperationKind)
  | stall
  | workloadOperation (kind : OperationKind)
  deriving DecidableEq, Repr

namespace Sensor

/-- The label under which a sensor is read. -/
def label : Sensor → String
  | .valueChosen => "skewgen.distinct.next"
  | .rangeChosen => "skewgen.distinct.get"
  | .tailChosen => "skewgen.distinct.get_zipfian"
  | .duplicateValue => "skewgen.distinct.duplicate"
  | .poolReset => "skewgen.pool.reset"
  | .encode => "ycsbint.codec.encode"
  | .decode => "ycsbint.codec.decode"
  | .decodeFiltered => "ycsbint.codec.decode_filtered"
  | .corrupt => "ycsbint.codec.corrupt"
  | .merge => "ycsbint.codec.merge"
  | .engineOpen => "ycsbint.handle.open"
  | .engineOpenFailed => "ycsbint.handle.open_failed"
  | .engineClose => "ycsbint.handle.close"
  | .engineCloseFailed => "ycsbint.handle.close_failed"
  | .adapterInit => "ycsbint.adapter.init"
  | .adapterCleanup => "ycsbint.adapter.cleanup"
  | .adapterOperation kind => "ycsbint.adapter." ++ kind.name
  | .readNotFound => "ycsbint.adapter.read.not_found"
  | .updateNotFound => "ycsbint.adapter.update.not_found"
  | .adapterError => "ycsbint.adapter.error"
  | .clientOperation => "ycsbint_bench.client.operations"
  | .clientNotOk => "ycsbint_bench.client.not_ok"
  | .stoppedEarly => "ycsbint_bench.client.stopped_early"
  | .clientFatal => "ycsbint_bench.client.fatal"
  | .measuredOk kind => "ycsbint_bench." ++ kind.name
  | .measuredFailed kind => "ycsbint_bench." ++ kind.name ++ "_failed"
  | .latency kind => "ycsbint_bench." ++ kind.name ++ "_latency_micros"
  | .stall => "ycsbint_bench.rate_limit.stall"
  | .workloadOperation kind => "ycsbint_bench.ycsb." ++ kind.name

/-- Sensors of the distinct pools. -/
def ofDistinctPools : List Sensor := [.valueChosen, .rangeChosen, .tailChosen, .duplicateValue]

/-- Sensors of the byte pools. -/
def ofBytePools : List Sensor := [.poolReset]

/-- Sensors of all pools. -/
def ofGenerators : List Sensor := ofDistinctPools ++ ofBytePools

/-- Sensors of the row encodings. -/
def ofRows : List Sensor := [.encode, .decode, .decodeFiltered, .corrupt, .merge]

/-- Sensors of the shared engine handles. -/
def ofHandles : List Sensor := [.engineOpen, .engineOpenFailed, .engineClose, .engineCloseFailed]

/-- Sensors of the adapters and of the handles they share. -/
def ofAdapters : List Sensor :=
  [.adapterInit, .adapterCleanup, .adapterOperation .read, .readNotFound, .adapterOperation .scan,
    .adapterOperation .update, .updateNotFound, .adapterOperation .insert,
    .adapterOperation .delete, .adapterOperation .filter, .adapterError] ++ ofHandles

/-- Sensors of the client loop. -/
def ofClients : List Sensor := [.clientOperation, .clientNotOk, .stoppedEarly, .clientFatal]

/-- Counters of measured operations. -/
def ofMeasures : List Sensor :=
  OperationKind.all.flatMap fun kind => [.measuredOk kind, .measuredFailed kind]

/-- Latencies of measured operations. -/
def ofLatencies : List Sensor := OperationKind.all.map .latency

def ofRateLimits : List Sensor := [.stall]

/-- Sensors of the workload's operations. -/
def ofWorkload : List Sensor :=
  [.workloadOperation .insert, .workloadOperation .read, .workloadOperation .update,
    .workloadOperation .scan, .workloadOperation .delete, .workloadOperation .filter]

/-- Every sensor, counters first. -/
def all : List Sensor :=
  ofClients ++ ofMeasures ++ ofRateLimits ++ ofWorkload ++ ofAdapters ++ ofRows ++ ofGenerators ++
    ofLatencies

end Sensor

inductive LogLevel where
  | error
  | warn
  | info
  | debug
  deriving DecidableEq, Repr

def LogLevel.name : LogLevel → String
  | .error => "ERROR"
  | .warn => "WARN"
  | .info => "INFO"
  | .debug => "DEBUG"

inductive Event where
  | click (sensor : Sensor)
  | log (level : LogLevel) (message : String)
  deriving DecidableEq, Repr

namespace Event

/-- The log line of an event, if it is one. -/
def line? : Event → Option String
  | .click _ => none
  | .log level message => some (level.name ++ " " ++ message)

/-- The number of clicks of a sensor among the events. -/
def clicks (sensor : Sensor) (events : List Event) : Nat := events.count (.click sensor)

@[simp] theorem clicks_nil (sensor : Sensor) : clicks sensor [] = 0 := rfl

@[simp] theorem clicks_append (sensor : Sensor) (a b : List Event) :
    clicks sensor (a ++ b) = clicks sensor a + clicks sensor b := by
  simp [clicks]

end Event

end StoreBench
