import SatLab.Trial.Instance
/-!
The energy at the end of a lenient anneal. A run that ends early, on a satisfying
assignment, is carried on at energy zero up to the budget; mean and variance of the last
stretch tell a trapped search from a wandering one.
-/

set_option autoImplicit false
set_option relaxedAutoImplicit false

namespace SatLab.Landscape

open Trial (Instance)

/-- The shape of the energy at the end. -/
inductive TailShape
  | trappedDeepWell
  | chaoticLiquid
  | solved
  | oscillatingGlassy
  deriving DecidableEq, Repr

namespace TailShape

def name : TailShape → String
  | .trappedDeepWell => "TrappedDeepWell"
  | .chaoticLiquid => "ChaoticLiquid"
  | .solved => "Solved"
  | .oscillatingGlassy => "OscillatingGlassy"

def describe : TailShape → String
  | .trappedDeepWell => "trapped in a deep well: energy frozen above zero"
  | .chaoticLiquid => "chaotic liquid: energy fluctuates widely, no structure found"
  | .solved => "solved: energy settled at zero"
  | .oscillatingGlassy => "oscillating glassy: small fluctuations around a local minimum"

def isTrap : TailShape → Bool
  | .trappedDeepWell | .oscillatingGlassy => true
  | .chaoticLiquid | .solved => false

instance : Json.Codec TailShape := Json.Codec.ofNames name
  [.trappedDeepWell, .chaoticLiquid, .solved, .oscillatingGlassy]

/-- The shape given by mean and variance. The rules are tried in order. -/
def classify (mean variance trappedVariance chaoticVariance : Float) : TailShape :=
  if variance < trappedVariance && 0.0 < mean then .trappedDeepWell
  else if chaoticVariance < variance then .chaoticLiquid
  else if mean == 0.0 then .solved
  else .oscillatingGlassy

end TailShape

def meanAndVariance (values : List Nat) : Float × Float :=
  if values.isEmpty then (0.0, 0.0)
  else
    let len := toReal values.length
    let mean := sumReals (values.map toReal) / len
    let squares := values.map fun v => (toReal v - mean) * (toReal v - mean)
    (mean, sumReals squares / len)

structure TailConfig where
  n : Nat := 50
  alpha : Float := 4.26
  seed : Uniform.Seed := 0
  budget : Nat := 2000
  tailWindow : Nat := 200
  escapeProbability : Float := 0.1
  trappedVariance : Float := 0.05
  chaoticVariance : Float := 1.0

structure TailResult where
  n : Nat
  alpha : Float
  -- the energy after each step, zero from the end of the run to the budget
  energyHistory : List Nat
  meanEnergy : Float
  minEnergy : Nat
  variance : Float
  diagnosis : TailShape

/-- Cuts a history to a length, or carries it on at zero up to there. -/
def padHistory (length : Nat) (history : List Nat) : Except Fault (List Nat) :=
  if history.length < length ∧ tableBound ≤ length then .error .oversized
  else .ok (history.take length ++ List.replicate (length - history.length) 0)

/-- Anneals an instance leniently and looks at the last stretch. -/
def energyTail (c : TailConfig) : Task Trial.Error TailResult := do
  if c.budget = 0 || c.tailWindow = 0 then throw (.rejected .emptyHistory)
  let inst : Instance := ⟨c.n, c.alpha, c.seed⟩
  let f ← Task.lift inst.formula
  let schedule : Annealing.Schedule :=
    { maxSteps := c.budget, acceptance := .lenient c.escapeProbability }
  let run ← inst.anneal f schedule 0
  let energyHistory ← Trial.sound (padHistory c.budget run.energyTrace)
  let tail := energyHistory.drop (energyHistory.length - c.tailWindow)
  let (meanEnergy, variance) := meanAndVariance tail
  return {
    n := c.n
    alpha := c.alpha
    energyHistory, meanEnergy
    minEnergy := energyHistory.min?.getD 0
    variance
    diagnosis := .classify meanEnergy variance c.trappedVariance c.chaoticVariance }

instance : Json.Codec TailConfig := Json.Record.codec
  { base := {}
    hasDefaults := true
    fields :=
      [ .of "n" TailConfig.n fun v s => { s with n := v },
        .of "alpha" TailConfig.alpha fun v s => { s with alpha := v },
        .of "seed" TailConfig.seed fun v s => { s with seed := v },
        .of "budget" TailConfig.budget fun v s => { s with budget := v },
        .of "tail_window" TailConfig.tailWindow fun v s => { s with tailWindow := v },
        .of "escape_probability" TailConfig.escapeProbability
          fun v s => { s with escapeProbability := v },
        .of "trapped_variance" TailConfig.trappedVariance
          fun v s => { s with trappedVariance := v },
        .of "chaotic_variance" TailConfig.chaoticVariance
          fun v s => { s with chaoticVariance := v } ] }

instance : Json.Codec TailResult := Json.Record.codec
  { base := ⟨0, 0.0, [], 0.0, 0, 0.0, .solved⟩
    hasDefaults := false
    fields :=
      [ .of "n" TailResult.n fun v s => { s with n := v },
        .of "alpha" TailResult.alpha fun v s => { s with alpha := v },
        .of "energy_history" TailResult.energyHistory fun v s => { s with energyHistory := v },
        .of "mean_energy" TailResult.meanEnergy fun v s => { s with meanEnergy := v },
        .of "min_energy" TailResult.minEnergy fun v s => { s with minEnergy := v },
        .of "variance" TailResult.variance fun v s => { s with variance := v },
        .of "diagnosis" TailResult.diagnosis fun v s => { s with diagnosis := v } ] }

end SatLab.Landscape
