import SatLab.Backbone.Universality
/-!
Predictions on instances of growing size. A line through size and mean accuracy shows
whether a leak lasts; sizes at which no instance has a backbone are left out.
-/

set_option autoImplicit false
set_option relaxedAutoImplicit false

namespace SatLab.Backbone

/-- What becomes of a leak as the size grows. -/
inductive LeakTrend
  | robust
  | decaying
  | collapsing
  deriving DecidableEq, Repr

namespace LeakTrend

def name : LeakTrend → String
  | .robust => "Robust"
  | .decaying => "Decaying"
  | .collapsing => "Collapsing"

def describe : LeakTrend → String
  | .robust => "robust: prediction accuracy holds as n grows"
  | .decaying => "decaying: prediction accuracy erodes with n"
  | .collapsing => "collapsing: the leak is a small-size artifact"

instance : Json.Codec LeakTrend := Json.Codec.ofNames name [.robust, .decaying, .collapsing]

/-- The trend from the change of the accuracy per variable, held against two losses. -/
def ofSlope (slope decaySlope collapseSlope : Float) : LeakTrend :=
  if -decaySlope ≤ slope then .robust
  else if -collapseSlope ≤ slope then .decaying
  else .collapsing

end LeakTrend

structure TrendConfig where
  -- the prediction; its size gives way to each of the sizes
  base : PredictionConfig := {}
  sizes : List Nat := [20, 30, 40, 50, 60]
  samplesPerSize : Nat := 5
  decaySlope : Float := 0.002
  collapseSlope : Float := 0.01
  parallel : Bool := true

structure SizeAccuracy where
  n : Nat
  evaluated : Nat
  stats : AccuracyStats

structure TrendResult where
  alpha : Float
  points : List SizeAccuracy
  trend : Cost.Line
  verdict : LeakTrend

def accuracyAt (c : TrendConfig) (n number : Nat) : Task Trial.Error (Option SizeAccuracy) := do
  let base := c.base.withInstance n (Uniform.deriveSeed c.base.seed number.toUInt64)
  let accuracies ← sampleAccuracies base c.samplesPerSize
  if accuracies.isEmpty then return none
  return some ⟨n, accuracies.length, .ofList accuracies⟩

/-- Predicts on instances of each size and fits the line. -/
def sizeTrend (c : TrendConfig) : Task Trial.Error TrendResult := do
  if c.samplesPerSize = 0 then throw (.rejected .noSamplesPerSize)
  let points := (← c.sizes.zipIdx.mapM fun (n, i) => accuracyAt c n i).filterMap id
  let trend ← Task.lift <| Except.mapError .fit <|
    Cost.fitLine (points.map (toReal ·.n)) (points.map (·.stats.mean))
  return {
    alpha := c.base.alpha
    points, trend
    verdict := .ofSlope trend.slope c.decaySlope c.collapseSlope }

instance : Json.Codec TrendConfig := Json.Record.codec
  { base := {}
    hasDefaults := true
    fields :=
      [ .of "base" TrendConfig.base fun v s => { s with base := v },
        .of "sizes" TrendConfig.sizes fun v s => { s with sizes := v },
        .of "samples_per_size" TrendConfig.samplesPerSize
          fun v s => { s with samplesPerSize := v },
        .of "decay_slope" TrendConfig.decaySlope fun v s => { s with decaySlope := v },
        .of "collapse_slope" TrendConfig.collapseSlope
          fun v s => { s with collapseSlope := v },
        .of "parallel" TrendConfig.parallel fun v s => { s with parallel := v } ] }

instance : Json.Codec SizeAccuracy := Json.Record.codec
  { base := ⟨0, 0, ⟨0.0, 0.0, 0.0⟩⟩
    hasDefaults := false
    fields :=
      [ .of "n" SizeAccuracy.n fun v s => { s with n := v },
        .of "evaluated" SizeAccuracy.evaluated fun v s => { s with evaluated := v },
        .of "stats" SizeAccuracy.stats fun v s => { s with stats := v } ] }

instance : Json.Codec TrendResult := Json.Record.codec
  { base := ⟨0.0, [], ⟨0.0, 0.0, 0.0⟩, .robust⟩
    hasDefaults := false
    fields :=
      [ .of "alpha" TrendResult.alpha fun v s => { s with alpha := v },
        .of "points" TrendResult.points fun v s => { s with points := v },
        .of "trend" TrendResult.trend fun v s => { s with trend := v },
        .of "verdict" TrendResult.verdict fun v s => { s with verdict := v } ] }

end SatLab.Backbone
