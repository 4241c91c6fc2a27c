import StoreBench.CommandLine.Bench
import StoreBench.CommandLine.Generate
/-!
# The program

Two commands, `generate` and `bench`, with the rest of the arguments as their command lines.
-/

namespace StoreBench.CommandLine

/-- The reason a file cannot be read. -/
def readFailure : IO.Error → ReadFailure
  | .noFileOrDirectory .. => .notFound
  | .permissionDenied .. => .denied
  | .inappropriateType _ 20 _ => .notDirectory
  | .inappropriateType _ 21 _ => .isDirectory
  | .invalidArgument _ 36 _ => .longName
  | .invalidArgument _ code details => .other s!"{details} (os error {code})"
  | error => .other (toString error)

def readProperties (path : String) : IO Properties.FileRead := do
  if path.toList.contains '\x00' then return .error .zeroInName
  try
    return .ok (← IO.FS.readBinFile path).toList
  catch e =>
    return .error (readFailure e)

/-- Print what a command leaves behind. A process that was killed has the status of an abort. -/
def finish (exit : Exit) : IO UInt32 := do
  exit.output.forM fun line => IO.println line
  exit.errors.forM fun line => IO.eprintln line
  return UInt32.ofNat (exit.status.getD 134)

end StoreBench.CommandLine

open StoreBench StoreBench.CommandLine

def main (args : List String) : IO UInt32 := do
  match args with
  | "generate" :: args => finish (Generate.command args)
  | "bench" :: args =>
    let content ← match Bench.propertiesFile? args with
      | some path => readProperties path
      | none => pure (.ok [])
    finish (Bench.command args fun _ => content)
  | _ => finish (.failure ["expected a command: generate or bench"])
