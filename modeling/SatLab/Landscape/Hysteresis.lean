import SatLab.Trial.Instance
/-!
A quench and a slow anneal of the same instance. Which of the two ends on a satisfying
assignment shows whether there are barriers and whether patience crosses them. A slow rate
beyond the usual one makes a deep scan, which gets more steps.
-/

set_option autoImplicit false
set_option relaxedAutoImplicit false

namespace SatLab.Landscape

open Trial (Instance)

def deepRate : Float := 0.9995

def isDeepScan (slowRate : Float) : Bool := Annealing.slowRate < slowRate

structure AnnealOutcome where
  coolingRate : Float
  steps : Nat
  success : Bool
  bestEnergy : Nat

def AnnealOutcome.ofRun (coolingRate : Float) (r : Annealing.Run) : AnnealOutcome :=
  ⟨coolingRate, r.steps, r.solved, r.bestEnergy⟩

/-- Which anneals succeed: neither, only the slow one, both, or only the quench. -/
inductive BarrierShape
  | thermalDeath
  | barrierCrossing
  | glassyButEasy
  | invertedHysteresis
  deriving DecidableEq, Repr

namespace BarrierShape

def name : BarrierShape → String
  | .thermalDeath => "ThermalDeath"
  | .barrierCrossing => "BarrierCrossing"
  | .glassyButEasy => "GlassyButEasy"
  | .invertedHysteresis => "InvertedHysteresis"

def describe : BarrierShape → String
  | .thermalDeath => "thermal death: neither cooling schedule escapes the landscape"
  | .barrierCrossing => "barrier crossing: slow cooling crosses a barrier the quench cannot"
  | .glassyButEasy => "glassy but easy: both schedules find a solution"
  | .invertedHysteresis => "inverted hysteresis: only the quench finds a solution"

instance : Json.Codec BarrierShape := Json.Codec.ofNames name
  [.thermalDeath, .barrierCrossing, .glassyButEasy, .invertedHysteresis]

/-- The shape given by the success of the quench and of the slow anneal. -/
def ofSuccess (fast slow : Bool) : BarrierShape :=
  match fast, slow with
  | false, false => .thermalDeath
  | false, true => .barrierCrossing
  | true, true => .glassyButEasy
  | true, false => .invertedHysteresis

end BarrierShape

structure HysteresisConfig where
  n : Nat := 50
  alpha : Float := 4.26
  seed : Uniform.Seed := 0
  fastRate : Float := Annealing.fastRate
  slowRate : Float := Annealing.slowRate
  maxSteps : Nat := 5000
  deepScanStepMultiplier : Nat := 4

namespace HysteresisConfig

def deepScan (c : HysteresisConfig) : HysteresisConfig := { c with slowRate := deepRate }

/-- The most steps of the slow anneal. -/
def slowSteps (c : HysteresisConfig) : Nat :=
  if isDeepScan c.slowRate then mulSaturating c.maxSteps (max c.deepScanStepMultiplier 1)
  else c.maxSteps

end HysteresisConfig

structure HysteresisResult where
  n : Nat
  alpha : Float
  fast : AnnealOutcome
  slow : AnnealOutcome
  isDeepScan : Bool
  diagnosis : BarrierShape

/-- Anneals an instance both ways. -/
def hysteresis (c : HysteresisConfig) : Task Trial.Error HysteresisResult := do
  if c.slowRate ≤ c.fastRate then throw (.rejected (.rateOrder c.fastRate c.slowRate))
  let inst : Instance := ⟨c.n, c.alpha, c.seed⟩
  let f ← Task.lift inst.formula
  let fastRun ← inst.anneal f { maxSteps := c.maxSteps, coolingRate := c.fastRate } 0
  let slowRun ← inst.anneal f { maxSteps := c.slowSteps, coolingRate := c.slowRate } 1
  let fast := AnnealOutcome.ofRun c.fastRate fastRun
  let slow := AnnealOutcome.ofRun c.slowRate slowRun
  return {
    n := c.n
    alpha := c.alpha
    fast, slow
    isDeepScan := Landscape.isDeepScan c.slowRate
    diagnosis := .ofSuccess fast.success slow.success }

instance : Json.Codec AnnealOutcome := Json.Record.codec
  { base := ⟨0.0, 0, false, 0⟩
    hasDefaults := false
    fields :=
      [ .of "cooling_rate" AnnealOutcome.coolingRate fun v s => { s with coolingRate := v },
        .of "steps" AnnealOutcome.steps fun v s => { s with steps := v },
        .of "success" AnnealOutcome.success fun v s => { s with success := v },
        .of "best_energy" AnnealOutcome.bestEnergy fun v s => { s with bestEnergy := v } ] }

instance : Json.Codec HysteresisConfig := Json.Record.codec
  { base := {}
    hasDefaults := true
    fields :=
      [ .of "n" HysteresisConfig.n fun v s => { s with n := v },
        .of "alpha" HysteresisConfig.alpha fun v s => { s with alpha := v },
        .of "seed" HysteresisConfig.seed fun v s => { s with seed := v },
        .of "fast_rate" HysteresisConfig.fastRate fun v s => { s with fastRate := v },
        .of "slow_rate" HysteresisConfig.slowRate fun v s => { s with slowRate := v },
        .of "max_steps" HysteresisConfig.maxSteps fun v s => { s with maxSteps := v },
        .of "deep_scan_step_multiplier" HysteresisConfig.deepScanStepMultiplier
          fun v s => { s with deepScanStepMultiplier := v } ] }

instance : Json.Codec HysteresisResult := Json.Record.codec
  { base := ⟨0, 0.0, ⟨0.0, 0, false, 0⟩, ⟨0.0, 0, false, 0⟩, false, .thermalDeath⟩
    hasDefaults := false
    fields :=
      [ .of "n" HysteresisResult.n fun v s => { s with n := v },
        .of "alpha" HysteresisResult.alpha fun v s => { s with alpha := v },
        .of "fast" HysteresisResult.fast fun v s => { s with fast := v },
        .of "slow" HysteresisResult.slow fun v s => { s with slow := v },
        .of "is_deep_scan" HysteresisResult.isDeepScan fun v s => { s with isDeepScan := v },
        .of "diagnosis" HysteresisResult.diagnosis fun v s => { s with diagnosis := v } ] }

end SatLab.Landscape
