import SatLab.Cost.Sweep
/-!
The search cost along the size at a fixed clause ratio, and the law by which it grows. The
stress test goes to larger sizes; there it is the step limit rather than the instance that
may bound the cost, and then the fit is not trusted.
-/

set_option autoImplicit false
set_option relaxedAutoImplicit false

namespace SatLab.Cost

/-- The clause ratio at which half of the large random instances have a model. -/
def criticalAlpha : Float := 4.26

def checkSizes (sizes : List Nat) : Except Error Unit := do
  if sizes.length < 3 then throw (.rejected (.tooFewSizes sizes.length))
  if (sizes.zip sizes.tail).any fun (a, b) => b ≤ a then throw (.rejected .unorderedSizes)

def fitSamples (samples : List CostSample) : Except Error Comparison :=
  (compareLaws (costCurve samples)).mapError .fit

structure GrowthConfig where
  alpha : Float := criticalAlpha
  sizes : List Nat := [10, 15, 20, 25, 30, 35]
  samplesPerSize : Nat := 20
  budget : StepBudget := .doubling 10000 1000000
  seed : Uniform.Seed := 42
  parallel : Bool := true

def GrowthConfig.fast : GrowthConfig :=
  { sizes := [10, 14, 18, 22], samplesPerSize := 8, budget := .doubling 10000 200000 }

structure GrowthResult where
  alpha : Float
  samples : List CostSample
  fit : Comparison
  diagnosis : Growth

def scanSizes (c : GrowthConfig) : Task Error GrowthResult := do
  Task.lift (checkSizes c.sizes)
  let samples ← sweepSizes c.alpha c.sizes c.samplesPerSize c.budget c.seed
  let fit ← Task.lift (fitSamples samples)
  return { alpha := c.alpha, samples, fit, diagnosis := fit.preferred }

/-- What a stress test concludes. -/
inductive StressDiagnosis
  | exponentialWall
  | polynomialAnomaly
  | budgetSaturated
  deriving DecidableEq, Repr

namespace StressDiagnosis

def name : StressDiagnosis → String
  | .exponentialWall => "ExponentialWall"
  | .polynomialAnomaly => "PolynomialAnomaly"
  | .budgetSaturated => "BudgetSaturated"

def describe : StressDiagnosis → String
  | .exponentialWall => "exponential wall: cost keeps multiplying at large n"
  | .polynomialAnomaly => "polynomial anomaly: a power law fits the large-n curve better"
  | .budgetSaturated => "budget saturated: the step ceiling, not the instance, bounded the cost"

instance : Json.Codec StressDiagnosis :=
  Json.Codec.ofNames name [.exponentialWall, .polynomialAnomaly, .budgetSaturated]

/-- The conclusion from the preferred law, unless more searches than the threshold allows
hit the limit. -/
def diagnose (preferred : Growth) (saturation threshold : Float) : StressDiagnosis :=
  if threshold < saturation then .budgetSaturated
  else match preferred with
    | .exponential => .exponentialWall
    | .polynomial => .polynomialAnomaly

end StressDiagnosis

/-- The parameters of a stress test. The fit is not trusted when more than the share
`saturationThreshold` of the searches at the largest size hit their limit. -/
structure StressConfig where
  alpha : Float := criticalAlpha
  sizes : List Nat := [30, 40, 50, 60]
  samplesPerSize : Nat := 5
  budget : StepBudget := .doubling 100000 5000000
  saturationThreshold : Float := 0.5
  seed : Uniform.Seed := 7
  parallel : Bool := true

def StressConfig.thorough : StressConfig :=
  { sizes := [30, 40, 50, 60, 70, 80], samplesPerSize := 10
    budget := .doubling 100000 20000000 }

structure StressResult where
  alpha : Float
  samples : List CostSample
  fit : Comparison
  saturation : Float
  diagnosis : StressDiagnosis

def stressTest (c : StressConfig) : Task Error StressResult := do
  Task.lift (checkSizes c.sizes)
  let samples ← sweepSizes c.alpha c.sizes c.samplesPerSize c.budget c.seed
  let fit ← Task.lift (fitSamples samples)
  let saturation := (samples.getLast?.map CostSample.inconclusiveRatio).getD 0.0
  let diagnosis := StressDiagnosis.diagnose fit.preferred saturation c.saturationThreshold
  return { alpha := c.alpha, samples, fit, saturation, diagnosis }

instance : Json.Codec GrowthConfig := Json.Record.codec
  { base := {}
    hasDefaults := true
    fields :=
      [ .of "alpha" GrowthConfig.alpha fun v s => { s with alpha := v },
        .of "sizes" GrowthConfig.sizes fun v s => { s with sizes := v },
        .of "samples_per_size" GrowthConfig.samplesPerSize
          fun v s => { s with samplesPerSize := v },
        .of "budget" GrowthConfig.budget fun v s => { s with budget := v },
        .of "seed" GrowthConfig.seed fun v s => { s with seed := v },
        .of "parallel" GrowthConfig.parallel fun v s => { s with parallel := v } ] }

instance : Json.Codec StressConfig := Json.Record.codec
  { base := {}
    hasDefaults := true
    fields :=
      [ .of "alpha" StressConfig.alpha fun v s => { s with alpha := v },
        .of "sizes" StressConfig.sizes fun v s => { s with sizes := v },
        .of "samples_per_size" StressConfig.samplesPerSize
          fun v s => { s with samplesPerSize := v },
        .of "budget" StressConfig.budget fun v s => { s with budget := v },
        .of "saturation_threshold" StressConfig.saturationThreshold
          fun v s => { s with saturationThreshold := v },
        .of "seed" StressConfig.seed fun v s => { s with seed := v },
        .of "parallel" StressConfig.parallel fun v s => { s with parallel := v } ] }

def blankComparison : Comparison := ⟨⟨0.0, 0.0, 0.0⟩, ⟨0.0, 0.0, 0.0⟩, .exponential⟩

instance : Json.Codec GrowthResult := Json.Record.codec
  { base := ⟨0.0, [], blankComparison, .exponential⟩
    hasDefaults := false
    fields :=
      [ .of "alpha" GrowthResult.alpha fun v s => { s with alpha := v },
        .of "samples" GrowthResult.samples fun v s => { s with samples := v },
        .of "fit" GrowthResult.fit fun v s => { s with fit := v },
        .of "diagnosis" GrowthResult.diagnosis fun v s => { s with diagnosis := v } ] }

instance : Json.Codec StressResult := Json.Record.codec
  { base := ⟨0.0, [], blankComparison, 0.0, .exponentialWall⟩
    hasDefaults := false
    fields :=
      [ .of "alpha" StressResult.alpha fun v s => { s with alpha := v },
        .of "samples" StressResult.samples fun v s => { s with samples := v },
        .of "fit" StressResult.fit fun v s => { s with fit := v },
        .of "saturation" StressResult.saturation fun v s => { s with saturation := v },
        .of "diagnosis" StressResult.diagnosis fun v s => { s with diagnosis := v } ] }

end SatLab.Cost
