import SatLab.Backbone.Prediction
/-!
Predictions on many instances of one size and clause ratio. Instances without a backbone
are left out of the statistics.
-/

set_option autoImplicit false
set_option relaxedAutoImplicit false

namespace SatLab.Backbone

structure AccuracyStats where
  mean : Float
  min : Float
  max : Float

/-- The statistics of a list, all zero when it is empty. -/
def AccuracyStats.ofList (accuracies : List Float) : AccuracyStats :=
  if accuracies.isEmpty then ⟨0.0, 0.0, 0.0⟩
  else
    { mean := sumReals accuracies / toReal accuracies.length
      min := accuracies.foldl smaller (1.0 / 0.0)
      max := accuracies.foldl larger (-1.0 / 0.0) }

inductive LeakReach
  | «universal»
  | «partial»
  | absent
  deriving DecidableEq, Repr

namespace LeakReach

def name : LeakReach → String
  | .universal => "Universal"
  | .partial => "Partial"
  | .absent => "Absent"

def describe : LeakReach → String
  | .universal => "universal: the structural leak holds across instances"
  | .partial => "partial: the leak appears on average but not consistently"
  | .absent => "absent: no systematic structural leak"

instance : Json.Codec LeakReach := Json.Codec.ofNames name [.universal, .partial, .absent]

end LeakReach

structure UniversalityConfig where
  -- the prediction; its seed is the seed of all instances
  base : PredictionConfig := {}
  samples : Nat := 20
  consistentAccuracy : Float := 0.8
  universalFraction : Float := 0.9
  parallel : Bool := true

structure UniversalityResult where
  n : Nat
  alpha : Float
  samples : Nat
  evaluated : Nat
  accuracies : List Float
  stats : AccuracyStats
  consistentFraction : Float
  verdict : LeakReach

/-- The reach of a leak from the number of instances with a backbone, their mean accuracy
and the share of consistent ones. -/
def LeakReach.judge (evaluated : Nat) (mean consistentFraction : Float)
    (c : UniversalityConfig) : LeakReach :=
  if evaluated = 0 then .absent
  else if c.universalFraction ≤ consistentFraction then .universal
  else if c.base.weakAccuracy ≤ mean then .partial
  else .absent

/-- The accuracies of a prediction on the instances that have a backbone. -/
def sampleAccuracies (base : PredictionConfig) (samples : Nat) : Task Trial.Error (List Float) := do
  let results ← (List.range samples).mapM fun i =>
    predictOn (base.toInstance.nth i.toUInt64) base
  return results.filterMap fun r =>
    if r.diagnosis = .noBackbone then none else some r.accuracy

def universalityTest (c : UniversalityConfig) : Task Trial.Error UniversalityResult := do
  if c.samples = 0 then throw (.rejected .noInstances)
  let accuracies ← sampleAccuracies c.base c.samples
  let evaluated := accuracies.length
  let stats := AccuracyStats.ofList accuracies
  let consistent := accuracies.countP fun a => c.consistentAccuracy < a
  let consistentFraction := ratio consistent evaluated
  return {
    n := c.base.n
    alpha := c.base.alpha
    samples := c.samples
    evaluated, accuracies, stats, consistentFraction
    verdict := .judge evaluated stats.mean consistentFraction c }

instance : Json.Codec AccuracyStats := Json.Record.codec
  { base := ⟨0.0, 0.0, 0.0⟩
    hasDefaults := false
    fields :=
      [ .of "mean" AccuracyStats.mean fun v s => { s with mean := v },
        .of "min" AccuracyStats.min fun v s => { s with min := v },
        .of "max" AccuracyStats.max fun v s => { s with max := v } ] }

instance : Json.Codec UniversalityConfig := Json.Record.codec
  { base := {}
    hasDefaults := true
    fields :=
      [ .of "base" UniversalityConfig.base fun v s => { s with base := v },
        .of "samples" UniversalityConfig.samples fun v s => { s with samples := v },
        .of "consistent_accuracy" UniversalityConfig.consistentAccuracy
          fun v s => { s with consistentAccuracy := v },
        .of "universal_fraction" UniversalityConfig.universalFraction
          fun v s => { s with universalFraction := v },
        .of "parallel" UniversalityConfig.parallel fun v s => { s with parallel := v } ] }

instance : Json.Codec UniversalityResult := Json.Record.codec
  { base := ⟨0, 0.0, 0, 0, [], ⟨0.0, 0.0, 0.0⟩, 0.0, .absent⟩
    hasDefaults := false
    fields :=
      [ .of "n" UniversalityResult.n fun v s => { s with n := v },
        .of "alpha" UniversalityResult.alpha fun v s => { s with alpha := v },
        .of "samples" UniversalityResult.samples fun v s => { s with samples := v },
        .of "evaluated" UniversalityResult.evaluated fun v s => { s with evaluated := v },
        .of "accuracies" UniversalityResult.accuracies fun v s => { s with accuracies := v },
        .of "stats" UniversalityResult.stats fun v s => { s with stats := v },
        .of "consistent_fraction" UniversalityResult.consistentFraction
          fun v s => { s with consistentFraction := v },
        .of "verdict" UniversalityResult.verdict fun v s => { s with verdict := v } ] }

end SatLab.Backbone
