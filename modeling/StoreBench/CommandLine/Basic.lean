import StoreBench.CommandLine.Setting
import StoreBench.Error
import StoreBench.Text.Blank
/-!
# Command lines

A command line is a run of options followed by free arguments. An option is a name behind one or
two dashes; its value is attached with an equals sign or follows as the next argument, whatever
that looks like. Options end at two dashes alone or at the first argument that is no option.
Besides the settings every command line knows a flag that asks for help.

A strict command line is moreover written in one way only: the settings that differ from their
defaults, in order of declaration, before the free arguments.
-/

namespace StoreBench.CommandLine

/-- An option as declared. -/
structure Declared where
  name : String
  takesValue : Bool
  deriving DecidableEq

/-- Why arguments are not understood. -/
inductive Misuse where
  | unrecognized (name : String)
  | missingValue (name : String)
  | repeated (name : String)
  | unexpectedValue (name : String)
  deriving DecidableEq

def Misuse.message : Misuse → String
  | .unrecognized name => "Unrecognized option: '" ++ name ++ "'"
  | .missingValue name => "Argument to option '" ++ name ++ "' missing"
  | .repeated name => "Option '" ++ name ++ "' given more than once"
  | .unexpectedValue name => "Option '" ++ name ++ "' does not take an argument"

/-- What arguments say: the options given, each under its declared name with its value, and the
free arguments. -/
structure Scan where
  given : List (String × String)
  free : List String
  deriving DecidableEq

def Scan.give (name value : String) (s : Scan) : Scan :=
  { s with given := (name, value) :: s.given }

/-- The option behind the dashes of an argument; nothing if the argument is free. -/
def optionText? (arg : String) : Option (List Char) :=
  match arg.toList with
  | '-' :: '-' :: rest => some rest
  | '-' :: c :: rest => some (c :: rest)
  | _ => none

/-- The name of an option and the value attached to it. -/
def splitOption (text : List Char) : String × Option String :=
  match Text.splitFirst? '=' text with
  | none => (String.ofList text, none)
  | some (name, value) => (String.ofList name, some (String.ofList value))

/-- Read arguments from the left, finding options by the names they are given. -/
def scan (find? : String → Option Declared) : List String → Except Misuse Scan
  | [] => .ok ⟨[], []⟩
  | arg :: rest =>
    if arg = "--" then .ok ⟨[], rest⟩
    else
      match optionText? arg with
      | none => .ok ⟨[], arg :: rest⟩
      | some text =>
        let (name, attached) := splitOption text
        match find? name with
        | none => .error (.unrecognized name)
        | some option =>
          match option.takesValue, attached, rest with
          | false, none, rest => (scan find? rest).map (.give option.name "")
          | false, some _, _ => .error (.unexpectedValue name)
          | true, some value, rest => (scan find? rest).map (.give option.name value)
          | true, none, value :: rest => (scan find? rest).map (.give option.name value)
          | true, none, [] => .error (.missingValue name)

/-- The flag that asks for help. It has a short name too. -/
def help : Declared := ⟨"help", false⟩

def declared {σ : Type} (settings : List (Setting σ)) : List Declared :=
  help :: settings.map fun s => ⟨s.name, s.access.takesValue⟩

/-- The declared option a name stands for. -/
def find? (options : List Declared) (name : String) : Option Declared :=
  if name = "h" then some help else options.find? (·.name == name)

/-- Read arguments that mention every option at most once. -/
def scanOnce {σ : Type} (settings : List (Setting σ)) (args : List String) :
    Except Misuse Scan := do
  let s ← scan (find? (declared settings)) args
  match (declared settings).find? fun d => 1 < s.given.countP (·.1 == d.name) with
  | some d => throw (.repeated d.name)
  | none => return s

/-- How reading a command line ends: with options, or with an exit that help or a misuse demands. -/
inductive Ending where
  | proceed
  | help
  | misuse (cause : Misuse)
  deriving DecidableEq

namespace Ending

/-- The exit status: none, one, or the customary one for a wrong usage. -/
def status : Ending → Nat
  | proceed => 0
  | help => 1
  | misuse _ => 64

def messages : Ending → List String
  | misuse cause => ["could not parse command line: " ++ cause.message]
  | _ => []

end Ending

structure Parsed (σ : Type) where
  options : σ
  free : List String
  ending : Ending

variable {σ : Type}

/-- Read a command line. The options stay at their defaults unless reading proceeds; a value that
its setting does not accept is a fault. -/
def parse (settings : List (Setting σ)) (default : σ) (args : List String) :
    Except Failure (Parsed σ) :=
  match scanOnce settings args with
  | .error cause => .ok ⟨default, [], .misuse cause⟩
  | .ok s =>
    if (s.given.lookup help.name).isSome then .ok ⟨default, [], .help⟩
    else
      let options := settings.foldlM (fun options setting =>
        match s.given.lookup setting.name with
        | none => some options
        | some word => setting.access.assign? word options) default
      match options with
      | none => .error .fault
      | some options => .ok ⟨options, s.free, .proceed⟩

/-- Whether arguments are written in the one strict way. Two dashes alone do not count, whether
they end the options or are the value of one. -/
def isStrict (settings : List (Setting σ)) (default : σ) (args : List String)
    (p : Parsed σ) : Bool :=
  args.filter (· ≠ "--") ==
    (Setting.canonical settings default p.options ++ p.free).filter (· ≠ "--")

/-- Read a command line, any but the strict way of writing it being a fault. -/
def parseStrict (settings : List (Setting σ)) (default : σ) (args : List String) :
    Except Failure (Parsed σ) := do
  let p ← parse settings default args
  if isStrict settings default args p then return p else throw .fault

end StoreBench.CommandLine
