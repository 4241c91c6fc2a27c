import StoreBench.Text.Decimal
import StoreBench.Text.Quoted
import StoreBench.Text.Record
/-!
# Errors of the data generators

Every one of them is met while a generator is being built, never while drawing from one.
-/

namespace StoreBench.Skew

open StoreBench.Text

/-- What makes a single parameter unusable. -/
inductive BadParameter where
  | lengthBounds (min max : Nat)
  | noItems (distribution : String)
  | thetaRange (theta : Float)
  | unknownRankMode (mode : String)
  | unknownLengthMode (mode : String)
  | noBlocks
  | noValues
  | noTheta
  | tooFewValues (wanted found : Nat)
  | other (what : String)

/-- Why a generator could not be built. -/
inductive Error where
  | selectionRate (rate : Float)
  | missingRankChooser
  | rankDomain (cardinality values : Nat)
  | invalid (parameter : BadParameter)

def BadParameter.message : BadParameter → String
  | .lengthBounds min max => s!"min_length must be <= max_length: {min} > {max}"
  | .noItems distribution => s!"{distribution} rank chooser needs at least one item"
  | .thetaRange theta => "zipfian theta must be in (0, 1): " ++ ofFloat .plain theta
  | .unknownRankMode mode => "unknown rank mode " ++ quote mode
  | .unknownLengthMode mode => "unknown length mode " ++ quote mode
  | .noBlocks => "random value pool needs at least one block"
  | .noValues => "distinct value generator needs at least one value"
  | .noTheta => "zipfian ranges need a rank chooser with a theta"
  | .tooFewValues wanted found =>
    s!"value lengths cannot produce {wanted} distinct values; stuck at {found}"
  | .other what => what

/-- The name of the kind of error. -/
def Error.kind : Error → String
  | .selectionRate _ => "SelectionRateOutOfRange"
  | .missingRankChooser => "MissingRankChooser"
  | .rankDomain .. => "RankDomain"
  | .invalid _ => "InvalidParameter"

/-- The parts an error carries, as they are written. -/
def Error.parts : Error → List (String × String)
  | .selectionRate rate => [("selection_rate", ofFloat .exact rate)]
  | .missingRankChooser => []
  | .rankDomain cardinality values =>
    [("cardinality", toString cardinality), ("num_distinct", toString values)]
  | .invalid parameter => [("what", quote parameter.message)]

def Error.message (e : Error) : String := record e.kind e.parts

/-- Every generator error is an error of configuration. -/
def Error.isConfiguration (_ : Error) : Bool := true

end StoreBench.Skew
