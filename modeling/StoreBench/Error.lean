import StoreBench.Bytes
import StoreBench.Failure
import StoreBench.Skew.Error
/-!
# Errors of the benchmark

An error is one of five kinds, each with its causes. Nothing here is recoverable: that a key is
absent is a status, not an error.
-/

namespace StoreBench

open Text

/-- Why a file cannot be read as text. -/
inductive ReadFailure where
  | notFound
  | denied
  | notDirectory
  | isDirectory
  | longName
  | zeroInName
  | notText
  | other (what : String)
  deriving DecidableEq

/-- Why a token bucket refuses a setting. -/
inductive BucketRefusal where
  | lowCapacity
  | largeAmount
  | longInterval
  deriving DecidableEq

/-- What is wrong with a configuration, or with the moment a component is used. -/
inductive Misconfiguration where
  | generator (error : Skew.Error)
  | propertyLine (number : Nat) (line : String)
  | unreadableFile (path : String) (reason : ReadFailure)
  | badValue (key value type : String)
  | notBoolean (key value : String)
  | noStorageDirectory (key : String)
  | unknownMergingStrategy (text : String)
  | unknownCompression (text : String)
  | falsePositiveRange (key : String) (value : Float)
  | levelShape (maxLevelKey sizeRatioKey : String)
  | zeroBlockSize (key : String)
  | unsupportedFormat (format engineKind : String)
  | surplusRelease (handle : String)
  | unknownAdapter (name : String) (known : List String)
  | initializedTwice (adapter : String)
  | cleanedUpWithoutInit (adapter : String)
  | usedOutside (adapter : String)
  | basicOutside (operation : String)
  | notPositive (option : String)
  | negativeProportion
  | noProportion
  | zeroRate
  | noThreads
  | rateBelowThreads (total threads : Nat)
  | bucket (refusal : BucketRefusal)
  | other (what : String)

/-- Why a stored row does not decode. -/
inductive Corruption where
  | bufferTooShort (required had offset length : Nat)
  | nameNotText (offset : Nat)
  | fieldCount (key : Bytes) (found expected : Nat)
  | slotCount (expected found : Nat)
  | other (what : String)

/-- What an engine reports. -/
inductive EngineFailure where
  | closed (engine : String)
  | closedTwice (engine : String)
  | noMergeOperator (engine : String)
  | other (what : String)

/-- Why arguments cannot be satisfied. -/
inductive BadArgument where
  | boundCounts (low high : Nat)
  | boundNames (low high : String)
  | tupleWidth (engine : String) (found expected : Nat)
  | keySlot (engine : String)
  | longPart (part : String) (length : Nat)
  | other (what : String)

inductive Error where
  | configuration (cause : Misconfiguration)
  | corruptRow (cause : Corruption)
  | engine (cause : EngineFailure)
  | unknownField (name : String)
  | invalidArgument (cause : BadArgument)

/-- Why an operation of the benchmark has no result. -/
abbrev Failure := FailureOf Error

/-- The system's words for a reason, and its number where it has one. -/
def ReadFailure.message : ReadFailure → String
  | .notFound => "No such file or directory (os error 2)"
  | .denied => "Permission denied (os error 13)"
  | .notDirectory => "Not a directory (os error 20)"
  | .isDirectory => "Is a directory (os error 21)"
  | .longName => "File name too long (os error 36)"
  | .zeroInName => "file name contained an unexpected NUL byte"
  | .notText => "stream did not contain valid UTF-8"
  | .other what => what

def BucketRefusal.message : BucketRefusal → String
  | .lowCapacity => "max tokens cannot be less than the refill amount"
  | .largeAmount => "refill amount cannot exceed the max tokens"
  | .longInterval => "refill interval in nanoseconds exceeds maximum u64"

def Misconfiguration.message : Misconfiguration → String
  | .generator error => error.message
  | .propertyLine number line => s!"line {number} is not of the form key=value: " ++ quote line
  | .unreadableFile path reason => s!"could not read {path}: " ++ reason.message
  | .badValue key value type => key ++ "=" ++ quote value ++ " is not a valid " ++ type
  | .notBoolean key value => key ++ "=" ++ quote value ++ " is not a boolean"
  | .noStorageDirectory key => key ++ " must name a storage directory"
  | .unknownMergingStrategy text => "unknown merging strategy " ++ quote text
  | .unknownCompression text => "unknown compression type " ++ quote text
  | .falsePositiveRange key value => key ++ "=" ++ ofFloat .plain value ++ " must lie in (0, 1)"
  | .levelShape maxLevelKey sizeRatioKey =>
    s!"{maxLevelKey} must be positive and {sizeRatioKey} at least 2"
  | .zeroBlockSize key => key ++ " must be positive"
  | .unsupportedFormat format engineKind =>
    "format " ++ quote format ++ s!" is not supported by {engineKind} engines"
  | .surplusRelease handle => handle ++ " released more times than it was acquired"
  | .unknownAdapter name known =>
    "unknown adapter " ++ quote name ++ "; expected one of " ++ ", ".intercalate known
  | .initializedTwice adapter => adapter ++ " adapter initialized twice"
  | .cleanedUpWithoutInit adapter => adapter ++ " adapter cleaned up without init"
  | .usedOutside adapter => adapter ++ " adapter used outside init/cleanup"
  | .basicOutside operation => s!"basic adapter {operation} outside init/cleanup"
  | .notPositive option => option ++ " must be positive"
  | .negativeProportion => "proportions must be non-negative"
  | .noProportion => "at least one proportion must be positive"
  | .zeroRate => "rate limit must be at least one op/sec"
  | .noThreads => "cannot split a rate across zero threads"
  | .rateBelowThreads total threads =>
    s!"target throughput {total} ops/sec is less than one op/sec for each of {threads} threads"
  | .bucket refusal => "rate limiter: " ++ refusal.message
  | .other what => what

def Corruption.message : Corruption → String
  | .bufferTooShort required had offset length =>
    record "BufferTooShort" [("required", toString required), ("had", toString had)] ++
      s!" at offset {offset} of a {length} byte row"
  | .nameNotText offset => s!"field name ending at offset {offset} is not utf-8"
  | .fieldCount key found expected =>
    "row " ++ Bytes.escape key ++ s!" has {found} fields, expected {expected}"
  | .slotCount expected found => s!"expected {expected} slots, found {found}"
  | .other what => what

def EngineFailure.message : EngineFailure → String
  | .closed engine => engine ++ ": engine is closed"
  | .closedTwice engine => engine ++ ": closed twice"
  | .noMergeOperator engine => engine ++ ": no merge operator"
  | .other what => what

def BadArgument.message : BadArgument → String
  | .boundCounts low high => s!"filter has {low} low bounds and {high} high bounds"
  | .boundNames low high =>
    "filter pairs low bound " ++ quote low ++ " with high bound " ++ quote high
  | .tupleWidth engine found expected =>
    s!"{engine}: tuple has {found} slots, expected {expected}"
  | .keySlot engine => engine ++ ": slot 0 must hold the key"
  | .longPart part length => s!"{part} of {length} bytes does not fit a u32 length"
  | .other what => what

namespace Error

/-- The name of the kind of error. -/
def kind : Error → String
  | .configuration _ => "Configuration"
  | .corruptRow _ => "CorruptRow"
  | .engine _ => "Engine"
  | .unknownField _ => "UnknownField"
  | .invalidArgument _ => "InvalidArgument"

/-- The single part an error carries: its name and its text before quoting. -/
def detail : Error → String × String
  | .configuration cause => ("what", cause.message)
  | .corruptRow cause => ("context", cause.message)
  | .engine cause => ("what", cause.message)
  | .unknownField name => ("name", name)
  | .invalidArgument cause => ("what", cause.message)

def message (e : Error) : String := record e.kind [(e.detail.1, quote e.detail.2)]

/-- Every error ends the run it occurs in. -/
def isFatal (_ : Error) : Bool := true

/-- A generator's error, met while a benchmark is being configured. -/
def ofGenerator (e : Skew.Error) : Error := .configuration (.generator e)

end Error

end StoreBench
