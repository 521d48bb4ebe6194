import SatLab.Control.Signal
import SatLab.Cost.Error
/-!
What experiments on single instances refuse, and the wording of each refusal.
-/

set_option autoImplicit false
set_option relaxedAutoImplicit false

namespace SatLab.Trial

open Decimal (plain)

inductive Rejection
  | emptyHistory
  | rateOrder (fast slow : Float)
  | frozenFraction (value : Float)
  | noInstances
  | noSamplesPerSize
  | gapSolver (maxIterations : Nat) (tolerance : Float)
  | tooFewNodes (count : Nat)
  | startVanished
  | noCorrelationSamples

def Rejection.message : Rejection → String
  | .emptyHistory => "budget and tail window must be positive"
  | .rateOrder fast slow =>
    s!"fast rate {plain fast} must cool faster than slow rate {plain slow}"
  | .frozenFraction value => s!"frozen fraction must be in [0, 1], got {plain value}"
  | .noInstances => "universality needs at least one sample"
  | .noSamplesPerSize => "at least one sample per size is required"
  | .gapSolver maxIterations tolerance =>
    "gap solver needs iterations and a positive tolerance, got " ++
      s!"{maxIterations} and {plain tolerance}"
  | .tooFewNodes count => s!"spectral gap needs at least 2 nodes, got {count}"
  | .startVanished => "start vector vanished after deflation"
  | .noCorrelationSamples => "spectral correlation needs at least one sample"

inductive Error
  | core (cause : SatLab.Error)
  | fit (cause : Cost.FitError)
  | rejected (cause : Rejection)

namespace Error

def message : Error → String
  | .core cause => cause.message
  | .fit cause => s!"trend fit failed: {cause.message}"
  | .rejected cause => s!"invalid parameter: {cause.message}"

def ofFault (f : Fault) : Error := .core (.fault f)

def cancelled : Error := .core .cancelled

end Error

/-- Lets a computation that can only break off run in an experiment. -/
def sound {α : Type} (x : Except Fault α) : Task Error α :=
  Task.lift (x.mapError .ofFault)

end SatLab.Trial
