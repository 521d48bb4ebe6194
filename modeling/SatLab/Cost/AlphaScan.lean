import SatLab.Cost.Sweep
/-!
The satisfiable share and the search cost along the clause ratio. The cost peaks where
satisfiable instances turn into unsatisfiable ones.
-/

set_option autoImplicit false
set_option relaxedAutoImplicit false

namespace SatLab.Cost

/-- What a scan shows at one clause ratio. -/
structure ScanPoint where
  alpha : Float
  avgSteps : Float
  maxSteps : Nat
  satisfiabilityRatio : Float
  inconclusiveRatio : Float

def CostSample.scanPoint (s : CostSample) : ScanPoint :=
  ⟨s.alpha, s.avgSteps, s.maxSteps, s.satRatio, s.inconclusiveRatio⟩

structure ScanConfig where
  n : Nat := 20
  alphaMin : Float := 2.0
  alphaMax : Float := 7.0
  alphaStep : Float := 0.25
  samplesPerAlpha : Nat := 20
  stepLimit : Nat := 100000
  seed : Uniform.Seed := 42
  parallel : Bool := true

def ScanConfig.fast : ScanConfig :=
  { n := 15, alphaStep := 0.5, samplesPerAlpha := 10, stepLimit := 20000 }

structure ScanResult where
  n : Nat
  points : List ScanPoint
  peakAlpha : Float
  peakAvgSteps : Float

def scan (c : ScanConfig) : Task Error ScanResult := do
  let alphas ← Task.lift (alphaGrid c.alphaMin c.alphaMax c.alphaStep)
  let samples ← sweepAlphas c.n alphas c.samplesPerAlpha c.stepLimit c.seed
  let points := samples.map CostSample.scanPoint
  match peak? ScanPoint.avgSteps points with
  | some p => return { n := c.n, points, peakAlpha := p.alpha, peakAvgSteps := p.avgSteps }
  | none => throw (.rejected .emptyGrid)

instance : Json.Codec ScanPoint := Json.Record.codec
  { base := ⟨0.0, 0.0, 0, 0.0, 0.0⟩
    hasDefaults := false
    fields :=
      [ .of "alpha" ScanPoint.alpha fun v s => { s with alpha := v },
        .of "avg_steps" ScanPoint.avgSteps fun v s => { s with avgSteps := v },
        .of "max_steps" ScanPoint.maxSteps fun v s => { s with maxSteps := v },
        .of "satisfiability_ratio" ScanPoint.satisfiabilityRatio
          fun v s => { s with satisfiabilityRatio := v },
        .of "inconclusive_ratio" ScanPoint.inconclusiveRatio
          fun v s => { s with inconclusiveRatio := v } ] }

instance : Json.Codec ScanConfig := Json.Record.codec
  { base := {}
    hasDefaults := true
    fields :=
      [ .of "n" ScanConfig.n fun v s => { s with n := v },
        .of "alpha_min" ScanConfig.alphaMin fun v s => { s with alphaMin := v },
        .of "alpha_max" ScanConfig.alphaMax fun v s => { s with alphaMax := v },
        .of "alpha_step" ScanConfig.alphaStep fun v s => { s with alphaStep := v },
        .of "samples_per_alpha" ScanConfig.samplesPerAlpha
          fun v s => { s with samplesPerAlpha := v },
        .of "step_limit" ScanConfig.stepLimit fun v s => { s with stepLimit := v },
        .of "seed" ScanConfig.seed fun v s => { s with seed := v },
        .of "parallel" ScanConfig.parallel fun v s => { s with parallel := v } ] }

instance : Json.Codec ScanResult := Json.Record.codec
  { base := ⟨0, [], 0.0, 0.0⟩
    hasDefaults := false
    fields :=
      [ .of "n" ScanResult.n fun v s => { s with n := v },
        .of "points" ScanResult.points fun v s => { s with points := v },
        .of "peak_alpha" ScanResult.peakAlpha fun v s => { s with peakAlpha := v },
        .of "peak_avg_steps" ScanResult.peakAvgSteps
          fun v s => { s with peakAvgSteps := v } ] }

end SatLab.Cost
