import StoreBench.Properties
/-!
# Engine options

The tuning of one engine, resolved from the properties whose keys start with the engine's name and
a dot. Options out of range are refused, in a fixed order; options that are not set keep their
defaults. Zero, or -1 for the open files, leaves an engine's own default in place.
-/

namespace StoreBench

/-- How a log-structured engine shapes its levels. -/
inductive MergingStrategy where
  | elastic
  | tiering
  | leveling
  deriving DecidableEq, Repr

namespace MergingStrategy

def name : MergingStrategy → String
  | elastic => "elastic"
  | tiering => "tiering"
  | leveling => "leveling"

/-- The name with a capital. -/
def title : MergingStrategy → String
  | elastic => "Elastic"
  | tiering => "Tiering"
  | leveling => "Leveling"

/-- Read a strategy by name, in any case. -/
def parse? (text : String) : Except Misconfiguration MergingStrategy :=
  match String.ofList (text.toList.map Char.toLower) with
  | "elastic" => .ok elastic
  | "tiering" => .ok tiering
  | "leveling" => .ok leveling
  | _ => .error (.unknownMergingStrategy text)

end MergingStrategy

inductive Compression where
  | no
  | snappy
  | zlib
  | bzip2
  | lz4
  | lz4hc
  | xpress
  | zstd
  deriving DecidableEq, Repr

namespace Compression

/-- The name with a capital. -/
def title : Compression → String
  | no => "No"
  | snappy => "Snappy"
  | zlib => "Zlib"
  | bzip2 => "Bzip2"
  | lz4 => "Lz4"
  | lz4hc => "Lz4hc"
  | xpress => "Xpress"
  | zstd => "Zstd"

/-- Read a compression type by its lower-case name. -/
def parse? (text : String) : Except Misconfiguration Compression :=
  match text with
  | "no" => .ok no
  | "snappy" => .ok snappy
  | "zlib" => .ok zlib
  | "bzip2" => .ok bzip2
  | "lz4" => .ok lz4
  | "lz4hc" => .ok lz4hc
  | "xpress" => .ok xpress
  | "zstd" => .ok zstd
  | _ => .error (.unknownCompression text)

end Compression

structure EngineOptions where
  storageDir : String
  mergingStrategy : MergingStrategy
  memtableMaxSize : Nat
  level0MaxSize : Nat
  readBufferSize : Nat
  writeBufferSize : Nat
  compactionThreads : Nat
  maxWorkerThreads : Nat
  falsePositive : Float
  maxLevel : Nat
  levelSizeRatio : Nat
  blockSize : Nat
  compression : Compression
  destroy : Bool
  maxBackgroundJobs : Int
  maxOpenFiles : Int
  targetFileSizeBase : Nat
  useDirectReads : Bool
  useDirectIoForFlushCompaction : Bool
  increaseParallelism : Bool

namespace EngineOptions

/-- An engine's property, absent or parsed. -/
def optional {α : Type} (p : Properties) (key : String)
    (parser : String → Except Misconfiguration α) (default : α) : Except Misconfiguration α :=
  match p.get? key with
  | none => .ok default
  | some text => parser text

/-- The storage directory of an engine, also found under an older key. -/
def storageDirOf (p : Properties) (engine : String) : String :=
  ((p.get? (engine ++ ".storage_dir")).or (p.get? (engine ++ ".dbname"))).getD ""

/-- Resolve the options of an engine. -/
def ofProperties? (p : Properties) (engine : String) : Except Misconfiguration EngineOptions := do
  let key (name : String) := engine ++ "." ++ name
  let storageDir := storageDirOf p engine
  if storageDir = "" then throw (.noStorageDirectory (key "storage_dir"))
  let mergingStrategy ← optional p (key "merging_strategy") MergingStrategy.parse? .elastic
  let compression ← optional p (key "compression") Compression.parse? .no
  let falsePositive ← p.float (key "false_positive") 0.01
  if !(0.0 < falsePositive && falsePositive < 1.0) then
    throw (.falsePositiveRange (key "false_positive") falsePositive)
  let options : EngineOptions := {
    storageDir
    mergingStrategy
    memtableMaxSize := ← p.unsigned 64 (key "memtable_max_size") 1048576
    level0MaxSize := ← p.unsigned 64 (key "level_0_max_size") 536870912
    readBufferSize := ← p.unsigned 64 (key "read_buffer_size") 1048576
    writeBufferSize := ← p.unsigned 64 (key "write_buffer_size") 1048576
    compactionThreads := ← p.unsigned 32 (key "num_of_compaction_thread") 16
    maxWorkerThreads := ← p.unsigned 32 (key "max_worker_thread") 16
    falsePositive
    maxLevel := ← p.unsigned 32 (key "max_level") 5
    levelSizeRatio := ← p.unsigned 32 (key "level_size_ratio") 10
    blockSize := ← p.unsigned 64 (key "block_size") 4096
    compression
    destroy := ← p.bool (key "destroy") false
    maxBackgroundJobs := ← p.signed 32 (key "max_background_jobs") 0
    maxOpenFiles := ← p.signed 32 (key "max_open_files") (-1)
    targetFileSizeBase := ← p.unsigned 64 (key "target_file_size_base") 0
    useDirectReads := ← p.bool (key "use_direct_reads") false
    useDirectIoForFlushCompaction := ← p.bool (key "use_direct_io_for_flush_compaction") false
    increaseParallelism := ← p.bool (key "increase_parallelism") false }
  if options.maxLevel = 0 ∨ options.levelSizeRatio < 2 then
    throw (.levelShape (key "max_level") (key "level_size_ratio"))
  if options.blockSize = 0 then throw (.zeroBlockSize (key "block_size"))
  return options

/-- Bits per key of a bloom filter with the options' false-positive rate. -/
def bloomBitsPerKey (o : EngineOptions) : Float :=
  let ln2 : Float := 0.693147180559945309417232121458
  (-o.falsePositive.log / (ln2 * ln2)).ceil

end EngineOptions

end StoreBench
