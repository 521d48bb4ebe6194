import SatLab.Cnf.Error
import SatLab.Cost.Fit
/-!
What measurements of search cost refuse, and the wording of each refusal.
-/

set_option autoImplicit false
set_option relaxedAutoImplicit false

namespace SatLab.Cost

open Decimal (plain)

inductive Rejection
  | noSamples
  | grid (lowest highest step : Float)
  | emptyGrid
  | zoneOrder (green yellow : Float)
  | tooFewSizes (count : Nat)
  | unorderedSizes
  | threshold (value : Float)

def Rejection.message : Rejection → String
  | .noSamples => "at least one sample per point is required"
  | .grid lowest highest step =>
    s!"bad alpha range [{plain lowest}, {plain highest}] step {plain step}"
  | .emptyGrid => "empty alpha range"
  | .zoneOrder green yellow => s!"green ceiling {plain green} above yellow ceiling {plain yellow}"
  | .tooFewSizes count => s!"need at least 3 sizes to compare growth laws, got {count}"
  | .unorderedSizes => "sizes must be strictly increasing"
  | .threshold value => s!"hidden threshold must be positive and finite, got {plain value}"

inductive Error
  | core (cause : SatLab.Error)
  | fit (cause : FitError)
  | rejected (cause : Rejection)

namespace Error

def message : Error → String
  | .core cause => cause.message
  | .fit cause => s!"regression failed: {cause.message}"
  | .rejected cause => s!"invalid parameter: {cause.message}"

def ofFault (f : Fault) : Error := .core (.fault f)

def cancelled : Error := .core .cancelled

end Error

end SatLab.Cost
