import SatLab.Trial.Instance
/-!
The rigidity of an anneal: the share of the variables that it hardly turned over. When an
anneal fails, a rigid landscape blames the instance and a fluid one the search.
-/

set_option autoImplicit false
set_option relaxedAutoImplicit false

namespace SatLab.Landscape

open Decimal (fixed)
open Trial (Instance)

/-- Why an anneal did or did not succeed. -/
inductive RigidityVerdict
  | solvable
  | structuralShattered
  | algorithmicTrapping
  deriving DecidableEq, Repr

namespace RigidityVerdict

def name : RigidityVerdict → String
  | .solvable => "Solvable"
  | .structuralShattered => "StructuralShattered"
  | .algorithmicTrapping => "AlgorithmicTrapping"

def describe : RigidityVerdict → String
  | .solvable => "solvable: the difficulty was transient"
  | .structuralShattered => "structural: the solution space is shattered into frozen clusters"
  | .algorithmicTrapping => "algorithmic trapping: variables still move but the search stalls"

instance : Json.Codec RigidityVerdict :=
  Json.Codec.ofNames name [.solvable, .structuralShattered, .algorithmicTrapping]

def diagnose (energy : Nat) (rigidity threshold : Float) : RigidityVerdict :=
  if energy = 0 then .solvable
  else if threshold < rigidity then .structuralShattered
  else .algorithmicTrapping

end RigidityVerdict

structure RigidityConfig where
  n : Nat := 50
  alpha : Float := 4.26
  seed : Uniform.Seed := 0
  anneal : Annealing.Schedule := .slow 5000
  frozenFraction : Float := Trial.usualFrozenFraction
  rigidityThreshold : Float := 0.5

def RigidityConfig.strict (c : RigidityConfig) : RigidityConfig :=
  { c with rigidityThreshold := 0.6 }

structure RigidityResult where
  groundStateEnergy : Nat
  rigidity : Float
  frozenCount : Nat
  totalVars : Nat
  frozenVars : List Nat
  steps : Nat
  diagnosis : RigidityVerdict
  explanation : String

def examine (r : Annealing.Run) (frozenFraction threshold : Float) : RigidityResult :=
  let totalVars := r.flipCounts.size
  let frozenVars := r.frozenVars frozenFraction
  let frozenCount := frozenVars.length
  let rigidity := ratio frozenCount totalVars
  let diagnosis := RigidityVerdict.diagnose r.bestEnergy rigidity threshold
  { groundStateEnergy := r.bestEnergy
    rigidity, frozenCount, totalVars, frozenVars
    steps := r.steps
    diagnosis
    explanation :=
      s!"{diagnosis.describe}; ground state energy {r.bestEnergy}, " ++
      s!"{frozenCount} of {totalVars} variables frozen " ++
      s!"(rigidity {fixed 2 rigidity}, threshold {fixed 2 threshold})" }

def rigidityTest (c : RigidityConfig) : Task Trial.Error RigidityResult := do
  Task.lift (Trial.checkFrozenFraction c.frozenFraction)
  let inst : Instance := ⟨c.n, c.alpha, c.seed⟩
  let f ← Task.lift inst.formula
  let run ← inst.anneal f c.anneal 0
  return examine run c.frozenFraction c.rigidityThreshold

instance : Json.Codec RigidityConfig := Json.Record.codec
  { base := {}
    hasDefaults := true
    fields :=
      [ .of "n" RigidityConfig.n fun v s => { s with n := v },
        .of "alpha" RigidityConfig.alpha fun v s => { s with alpha := v },
        .of "seed" RigidityConfig.seed fun v s => { s with seed := v },
        .of "anneal" RigidityConfig.anneal fun v s => { s with anneal := v },
        .of "frozen_fraction" RigidityConfig.frozenFraction
          fun v s => { s with frozenFraction := v },
        .of "rigidity_threshold" RigidityConfig.rigidityThreshold
          fun v s => { s with rigidityThreshold := v } ] }

instance : Json.Codec RigidityResult := Json.Record.codec
  { base := ⟨0, 0.0, 0, 0, [], 0, .solvable, ""⟩
    hasDefaults := false
    fields :=
      [ .of "ground_state_energy" RigidityResult.groundStateEnergy
          fun v s => { s with groundStateEnergy := v },
        .of "backbone_rigidity" RigidityResult.rigidity fun v s => { s with rigidity := v },
        .of "frozen_vars_count" RigidityResult.frozenCount
          fun v s => { s with frozenCount := v },
        .of "total_vars" RigidityResult.totalVars fun v s => { s with totalVars := v },
        .variables "frozen_variables" RigidityResult.frozenVars
          fun v s => { s with frozenVars := v },
        .of "steps" RigidityResult.steps fun v s => { s with steps := v },
        .of "diagnosis" RigidityResult.diagnosis fun v s => { s with diagnosis := v },
        .of "explanation" RigidityResult.explanation fun v s => { s with explanation := v } ] }

end SatLab.Landscape
