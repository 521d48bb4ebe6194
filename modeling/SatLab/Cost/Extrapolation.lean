import SatLab.Cost.SizeScan
/-!
The cost at a size out of reach. The laws of growth are compared on small sizes, the
effective number of branches per variable is measured at one larger size, and from it the
cost at the target is computed. Such a cost may exceed every double, so its decimal
logarithm is carried.
-/

set_option autoImplicit false
set_option relaxedAutoImplicit false

namespace SatLab.Cost

/-- What an extrapolation concludes. -/
inductive GrowthVerdict
  | confirmedExponential
  | hiddenExponential
  | polynomialAnomaly
  deriving DecidableEq, Repr

namespace GrowthVerdict

def name : GrowthVerdict → String
  | .confirmedExponential => "ConfirmedExponential"
  | .hiddenExponential => "HiddenExponential"
  | .polynomialAnomaly => "PolynomialAnomaly"

def describe : GrowthVerdict → String
  | .confirmedExponential => "confirmed exponential: e^(Bn) beats n^B on the measured curve"
  | .hiddenExponential => "hidden exponential: fit is ambiguous but extrapolated cost explodes"
  | .polynomialAnomaly => "polynomial anomaly: no exponential signal in fit or extrapolation"

instance : Json.Codec GrowthVerdict :=
  Json.Codec.ofNames name [.confirmedExponential, .hiddenExponential, .polynomialAnomaly]

/-- The verdict from both fits, the decimal logarithm of the cost at the target, and the
threshold for that cost. -/
def diagnose (fit : Comparison) (costLog10 threshold : Float) : GrowthVerdict :=
  if fit.power.rSquared < fit.exponential.rSquared then .confirmedExponential
  else if threshold.log10 < costLog10 then .hiddenExponential
  else .polynomialAnomaly

end GrowthVerdict

/-- The parameters of an extrapolation. Growth is taken to be exponential when the cost at the
target size exceeds `hiddenThreshold`. -/
structure ExtrapolationConfig where
  alpha : Float := criticalAlpha
  fitSizes : List Nat := [10, 14, 18, 22, 26]
  fitSamples : Nat := 10
  fitBudget : StepBudget := .doubling 10000 500000
  probeSize : Nat := 50
  probeSamples : Nat := 5
  probeStepLimit : Nat := 5000000
  targetSize : Nat := 100
  hiddenThreshold : Float := 1e6
  seed : Uniform.Seed := 1337
  parallel : Bool := true

def ExtrapolationConfig.fast : ExtrapolationConfig :=
  { fitSizes := [10, 14, 18], fitSamples := 6, probeSize := 30, probeSamples := 3
    probeStepLimit := 500000 }

/-- An extrapolation and what it rests on. -/
structure Extrapolation where
  alpha : Float
  fitSamples : List CostSample
  fit : Comparison
  probe : CostSample
  branchingFactor : Float
  targetSize : Nat
  extrapolatedLog10 : Float
  diagnosis : GrowthVerdict

/-- The cost at the target, infinite beyond the range of doubles. -/
def Extrapolation.steps (e : Extrapolation) : Float := Float.pow 10.0 e.extrapolatedLog10

def extrapolate (c : ExtrapolationConfig) : Task Error Extrapolation := do
  Task.lift (checkSizes c.fitSizes)
  if !(c.hiddenThreshold.isFinite && 0.0 < c.hiddenThreshold) then
    throw (.rejected (.threshold c.hiddenThreshold))
  let samples ← sweepSizes c.alpha c.fitSizes c.fitSamples c.fitBudget c.seed
  let fit ← Task.lift (fitSamples samples)
  let probe ← measure c.probeSize c.alpha c.probeSamples c.probeStepLimit
    (pointSeed c.seed c.fitSizes.length)
  let branchingFactor := probe.branchingFactor
  let extrapolatedLog10 := toReal c.targetSize * branchingFactor.log10
  return {
    alpha := c.alpha
    fitSamples := samples
    fit, probe, branchingFactor
    targetSize := c.targetSize
    extrapolatedLog10
    diagnosis := .diagnose fit extrapolatedLog10 c.hiddenThreshold }

instance : Json.Codec ExtrapolationConfig := Json.Record.codec
  { base := {}
    hasDefaults := true
    fields :=
      [ .of "alpha" ExtrapolationConfig.alpha fun v s => { s with alpha := v },
        .of "fit_sizes" ExtrapolationConfig.fitSizes fun v s => { s with fitSizes := v },
        .of "fit_samples" ExtrapolationConfig.fitSamples fun v s => { s with fitSamples := v },
        .of "fit_budget" ExtrapolationConfig.fitBudget fun v s => { s with fitBudget := v },
        .of "probe_n" ExtrapolationConfig.probeSize fun v s => { s with probeSize := v },
        .of "probe_samples" ExtrapolationConfig.probeSamples
          fun v s => { s with probeSamples := v },
        .of "probe_step_limit" ExtrapolationConfig.probeStepLimit
          fun v s => { s with probeStepLimit := v },
        .of "target_n" ExtrapolationConfig.targetSize fun v s => { s with targetSize := v },
        .of "hidden_threshold" ExtrapolationConfig.hiddenThreshold
          fun v s => { s with hiddenThreshold := v },
        .of "seed" ExtrapolationConfig.seed fun v s => { s with seed := v },
        .of "parallel" ExtrapolationConfig.parallel fun v s => { s with parallel := v } ] }

instance : Json.Codec Extrapolation := Json.Record.codec
  { base := ⟨0.0, [], blankComparison, ⟨0, 0.0, 0, 0, 0.0, 0, 0, 0, 0⟩, 0.0, 0, 0.0,
      .polynomialAnomaly⟩
    hasDefaults := false
    fields :=
      [ .of "alpha" Extrapolation.alpha fun v s => { s with alpha := v },
        .of "fit_samples" Extrapolation.fitSamples fun v s => { s with fitSamples := v },
        .of "fit" Extrapolation.fit fun v s => { s with fit := v },
        .of "probe" Extrapolation.probe fun v s => { s with probe := v },
        .of "branching_factor" Extrapolation.branchingFactor
          fun v s => { s with branchingFactor := v },
        .of "target_n" Extrapolation.targetSize fun v s => { s with targetSize := v },
        .of "extrapolated_log10" Extrapolation.extrapolatedLog10
          fun v s => { s with extrapolatedLog10 := v },
        .of "diagnosis" Extrapolation.diagnosis fun v s => { s with diagnosis := v } ] }

end SatLab.Cost
