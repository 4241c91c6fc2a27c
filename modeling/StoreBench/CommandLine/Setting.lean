import StoreBench.Text.Decimal
import StoreBench.Text.Number
/-!
# Settings

A setting is one named part of an option set, of one of four types. A command line mentions a
setting by its name, followed by a value unless the setting is a flag. An option set nested in
another contributes its settings under longer names.
-/

namespace StoreBench.CommandLine

/-- How a part of an option set is read and replaced. -/
inductive Access (σ : Type) where
  | flag (get : σ → Bool) (set : Bool → σ → σ)
  /-- A number of at most `bits` bits. -/
  | number (bits : Nat) (get : σ → Nat) (set : Nat → σ → σ)
  | decimal (get : σ → Float) (set : Float → σ → σ)
  | text (get : σ → String) (set : String → σ → σ)

structure Setting (σ : Type) where
  name : String
  access : Access σ

namespace Access

variable {σ τ : Type}

/-- The same part, seen from a set that contains the set. -/
def within (get : τ → σ) (put : σ → τ → τ) : Access σ → Access τ
  | flag g s => .flag (g ∘ get) fun a t => put (s a (get t)) t
  | number bits g s => .number bits (g ∘ get) fun a t => put (s a (get t)) t
  | decimal g s => .decimal (g ∘ get) fun a t => put (s a (get t)) t
  | text g s => .text (g ∘ get) fun a t => put (s a (get t)) t

def takesValue : Access σ → Bool
  | flag .. => false
  | _ => true

/-- Replace the part by the one a command line spells; a flag that is mentioned is set. -/
def assign? (word : String) (options : σ) : Access σ → Option σ
  | flag _ set => some (set true options)
  | number bits _ set => (Text.parseUnsigned? bits word).map (set · options)
  | decimal _ set => (Text.parseFloat? word).map (set · options)
  | text _ set => some (set word options)

/-- The words that follow the name where the part differs from the default; nothing where it does
not. Numbers are compared as numbers, so a non-number always differs. -/
def words? (default options : σ) : Access σ → Option (List String)
  | flag get _ => if get options then some [] else none
  | number _ get _ =>
    if get options = get default then none else some [toString (get options)]
  | decimal get _ =>
    if get options == get default then none else some [Text.ofFloat .plain (get options)]
  | text get _ => if get options = get default then none else some [get options]

end Access

namespace Setting

variable {σ τ : Type}

/-- Prolong the name in front. -/
def prolong (stem : String) (s : Setting σ) : Setting σ := { s with name := stem ++ "-" ++ s.name }

/-- The settings of a nested option set, under names that start with its own. -/
def nest (stem : String) (get : τ → σ) (put : σ → τ → τ) (settings : List (Setting σ)) :
    List (Setting τ) :=
  settings.map fun s => ⟨(s.prolong stem).name, s.access.within get put⟩

/-- The command line that sets exactly what differs from the default, in order of declaration. -/
def canonical (settings : List (Setting σ)) (default options : σ) : List String :=
  settings.flatMap fun s =>
    match s.access.words? default options with
    | none => []
    | some words => ("--" ++ s.name) :: words

end Setting

end StoreBench.CommandLine
