import StoreBench.CommandLine.Basic
/-!
# Exits

What a command leaves behind when it ends: an exit status, the lines it wrote to its output, and
the lines it wrote about its failure.
-/

namespace StoreBench.CommandLine

structure Exit where
  /-- Nothing if the process was killed. -/
  status : Option Nat
  output : List String := []
  errors : List String := []
  deriving DecidableEq

namespace Exit

def success (output : List String) : Exit := ⟨some 0, output, []⟩

def failure (errors : List String) : Exit := ⟨some 1, [], errors⟩

/-- The end of a command that has no answer. -/
def fault : Exit := ⟨some 101, [], []⟩

/-- The end of a command that ran out of memory. -/
def exhausted : Exit := ⟨none, [], []⟩

end Exit

/-- The help text: the usage, and the settings by name. -/
def helpText {σ : Type} (usage : String) (settings : List (Setting σ)) : List String :=
  usage :: "" :: "Options:" :: (declared settings).map fun d => "    --" ++ d.name

/-- Read a strict command line and go on with it if it says so. -/
def withOptions {σ : Type} (usage : String) (settings : List (Setting σ)) (default : σ)
    (args : List String) (proceed : σ → List String → Exit) : Exit :=
  match parse settings default args with
  | .error _ => .fault
  | .ok p =>
    match p.ending with
    | .misuse cause =>
      ⟨some p.ending.status, [], (Ending.misuse cause).messages ++ helpText usage settings⟩
    | .help => ⟨some p.ending.status, [], helpText usage settings⟩
    | .proceed =>
      if isStrict settings default args p then proceed p.options p.free else .fault

end StoreBench.CommandLine
