import SatLab.Cost.Sweep
/-!
A map of hardness along the clause ratio: each point has a zone, which is given by the
effective number of branches per variable and two ceilings.
-/

set_option autoImplicit false
set_option relaxedAutoImplicit false

namespace SatLab.Cost

inductive Zone
  | green
  | yellow
  | red
  deriving DecidableEq, Repr

namespace Zone

def name : Zone → String
  | .green => "Green"
  | .yellow => "Yellow"
  | .red => "Red"

instance : Json.Codec Zone := Json.Codec.ofNames name [.green, .yellow, .red]

def classify (b greenCeiling yellowCeiling : Float) : Zone :=
  if b < greenCeiling then .green else if b < yellowCeiling then .yellow else .red

end Zone

structure ZoneConfig where
  n : Nat := 30
  alphaMin : Float := 3.0
  alphaMax : Float := 6.0
  alphaStep : Float := 0.25
  samplesPerAlpha : Nat := 10
  stepLimit : Nat := 500000
  greenCeiling : Float := 1.13
  yellowCeiling : Float := 1.17
  seed : Uniform.Seed := 2024
  parallel : Bool := true

structure ZonePoint where
  alpha : Float
  avgSteps : Float
  branchingFactor : Float
  satRatio : Float
  zone : Zone

def CostSample.zonePoint (s : CostSample) (c : ZoneConfig) : ZonePoint :=
  let b := s.branchingFactor
  ⟨s.alpha, s.avgSteps, b, s.satRatio, .classify b c.greenCeiling c.yellowCeiling⟩

structure ZoneMap where
  n : Nat
  points : List ZonePoint
  peakAlpha : Float
  peakBranchingFactor : Float

def ZoneMap.count (m : ZoneMap) (z : Zone) : Nat := m.points.countP fun p => p.zone = z

def mapZones (c : ZoneConfig) : Task Error ZoneMap := do
  if !(c.greenCeiling ≤ c.yellowCeiling) then
    throw (.rejected (.zoneOrder c.greenCeiling c.yellowCeiling))
  let alphas ← Task.lift (alphaGrid c.alphaMin c.alphaMax c.alphaStep)
  let samples ← sweepAlphas c.n alphas c.samplesPerAlpha c.stepLimit c.seed
  let points := samples.map (·.zonePoint c)
  match peak? ZonePoint.branchingFactor points with
  | some p =>
    return { n := c.n, points, peakAlpha := p.alpha, peakBranchingFactor := p.branchingFactor }
  | none => throw (.rejected .emptyGrid)

instance : Json.Codec ZoneConfig := Json.Record.codec
  { base := {}
    hasDefaults := true
    fields :=
      [ .of "n" ZoneConfig.n fun v s => { s with n := v },
        .of "alpha_min" ZoneConfig.alphaMin fun v s => { s with alphaMin := v },
        .of "alpha_max" ZoneConfig.alphaMax fun v s => { s with alphaMax := v },
        .of "alpha_step" ZoneConfig.alphaStep fun v s => { s with alphaStep := v },
        .of "samples_per_alpha" ZoneConfig.samplesPerAlpha
          fun v s => { s with samplesPerAlpha := v },
        .of "step_limit" ZoneConfig.stepLimit fun v s => { s with stepLimit := v },
        .of "green_ceiling" ZoneConfig.greenCeiling fun v s => { s with greenCeiling := v },
        .of "yellow_ceiling" ZoneConfig.yellowCeiling fun v s => { s with yellowCeiling := v },
        .of "seed" ZoneConfig.seed fun v s => { s with seed := v },
        .of "parallel" ZoneConfig.parallel fun v s => { s with parallel := v } ] }

instance : Json.Codec ZonePoint := Json.Record.codec
  { base := ⟨0.0, 0.0, 0.0, 0.0, .green⟩
    hasDefaults := false
    fields :=
      [ .of "alpha" ZonePoint.alpha fun v s => { s with alpha := v },
        .of "avg_steps" ZonePoint.avgSteps fun v s => { s with avgSteps := v },
        .of "branching_factor" ZonePoint.branchingFactor
          fun v s => { s with branchingFactor := v },
        .of "sat_ratio" ZonePoint.satRatio fun v s => { s with satRatio := v },
        .of "zone" ZonePoint.zone fun v s => { s with zone := v } ] }

instance : Json.Codec ZoneMap := Json.Record.codec
  { base := ⟨0, [], 0.0, 0.0⟩
    hasDefaults := false
    fields :=
      [ .of "n" ZoneMap.n fun v s => { s with n := v },
        .of "points" ZoneMap.points fun v s => { s with points := v },
        .of "peak_alpha" ZoneMap.peakAlpha fun v s => { s with peakAlpha := v },
        .of "peak_branching_factor" ZoneMap.peakBranchingFactor
          fun v s => { s with peakBranchingFactor := v } ] }

end SatLab.Cost
