import SatLab.Trial.Instance
/-!
Pruning by a guessed backbone. The variables that an anneal hardly turned over are given
their values in its best assignment, and the cost of exact search with and without the guess
is compared per free variable. A wrong guess can leave no model.
-/

set_option autoImplicit false
set_option relaxedAutoImplicit false

namespace SatLab.Backbone

open Trial (Instance)

/-- What a guess did: it saved work, it saved none worth the name, it left no model where there was
one, or the search with it hit the step limit. -/
inductive PruneVerdict
  | prunable
  | invariantResistant
  | backboneMisidentified
  | inconclusive
  deriving DecidableEq, Repr

namespace PruneVerdict

def name : PruneVerdict → String
  | .prunable => "Prunable"
  | .invariantResistant => "InvariantResistant"
  | .backboneMisidentified => "BackboneMisidentified"
  | .inconclusive => "Inconclusive"

def describe : PruneVerdict → String
  | .prunable => "prunable: fixing the frozen variables cuts the search"
  | .invariantResistant => "invariant resistant: the frozen variables do not simplify the search"
  | .backboneMisidentified => "backbone misidentified: fixing the guess destroyed every solution"
  | .inconclusive => "inconclusive: the pruned search hit the step ceiling"

instance : Json.Codec PruneVerdict := Json.Codec.ofNames name
  [.prunable, .invariantResistant, .backboneMisidentified, .inconclusive]

end PruneVerdict

/-- The parameters of a pruning. One that succeeds guesses at least `minBackboneSize` literals and
lowers the branches per variable by more than `minReductionPercent`. -/
structure PruneConfig where
  n : Nat := 40
  alpha : Float := 4.26
  seed : Uniform.Seed := 0
  anneal : Annealing.Schedule := .slow 5000
  frozenFraction : Float := Trial.usualFrozenFraction
  stepLimit : Nat := 1000000
  minBackboneSize : Nat := 1
  minReductionPercent : Float := 1.0

/-- What came of an exact search. -/
structure ExactSolve where
  -- whether there is a model; `none` when the search hit the limit
  satisfiable : Option Bool
  steps : Nat
  freeVars : Nat
  branchingFactor : Float

def ExactSolve.ofResult (r : Search.Result) (freeVars : Nat) : ExactSolve :=
  ⟨r.outcome.verdict?, r.steps, freeVars, r.branchingFactor freeVars⟩

/-- What a guess takes off the branches per variable, in percent. -/
def reductionPercent (before after : ExactSolve) : Float :=
  if 0.0 < before.branchingFactor then
    100.0 * (before.branchingFactor - after.branchingFactor) / before.branchingFactor
  else 0.0

/-- The verdict on a guess. Only a search that ended without a model counts against it. -/
def PruneVerdict.diagnose (before after : ExactSolve) (backboneSize : Nat) (reduction : Float)
    (c : PruneConfig) : PruneVerdict :=
  if before.satisfiable = some true && after.satisfiable = some false then
    .backboneMisidentified
  else if after.satisfiable.isNone then .inconclusive
  else if c.minBackboneSize ≤ backboneSize && after.steps < before.steps
      && c.minReductionPercent < reduction then .prunable
  else .invariantResistant

structure PruneResult where
  n : Nat
  alpha : Float
  backbone : List Literal
  before : ExactSolve
  after : ExactSolve
  reductionPercent : Float
  diagnosis : PruneVerdict

/-- The literals that an anneal guesses: its frozen variables with their values in its best
assignment. -/
def guess (r : Annealing.Run) (frozenFraction : Float) : Except Fault (List Literal) :=
  (r.frozenVars frozenFraction).mapM r.bestAssignment.literalOf

/-- Guesses a backbone and searches with and without it. -/
def prune (c : PruneConfig) : Task Trial.Error PruneResult := do
  Task.lift (Trial.checkFrozenFraction c.frozenFraction)
  let inst : Instance := ⟨c.n, c.alpha, c.seed⟩
  let f ← Task.lift inst.formula
  let full ← Trial.solve c.stepLimit f
  let run ← inst.anneal f c.anneal 0
  let backbone ← Trial.sound (guess run c.frozenFraction)
  let reduced ← Trial.sound (f.reduceAll backbone)
  let pruned ← Trial.solve c.stepLimit reduced
  Task.check .cancelled
  let before := ExactSolve.ofResult full f.numVars
  let after := ExactSolve.ofResult pruned (f.numVars - backbone.length)
  let reduction := Backbone.reductionPercent before after
  return {
    n := c.n
    alpha := c.alpha
    backbone, before, after
    reductionPercent := reduction
    diagnosis := .diagnose before after backbone.length reduction c }

instance : Json.Codec PruneConfig := Json.Record.codec
  { base := {}
    hasDefaults := true
    fields :=
      [ .of "n" PruneConfig.n fun v s => { s with n := v },
        .of "alpha" PruneConfig.alpha fun v s => { s with alpha := v },
        .of "seed" PruneConfig.seed fun v s => { s with seed := v },
        .of "anneal" PruneConfig.anneal fun v s => { s with anneal := v },
        .of "frozen_fraction" PruneConfig.frozenFraction
          fun v s => { s with frozenFraction := v },
        .of "step_limit" PruneConfig.stepLimit fun v s => { s with stepLimit := v },
        .of "min_backbone_size" PruneConfig.minBackboneSize
          fun v s => { s with minBackboneSize := v },
        .of "min_reduction_percent" PruneConfig.minReductionPercent
          fun v s => { s with minReductionPercent := v } ] }

instance : Json.Codec ExactSolve := Json.Record.codec
  { base := ⟨none, 0, 0, 0.0⟩
    hasDefaults := false
    fields :=
      [ .of "satisfiable" ExactSolve.satisfiable fun v s => { s with satisfiable := v },
        .of "steps" ExactSolve.steps fun v s => { s with steps := v },
        .of "free_vars" ExactSolve.freeVars fun v s => { s with freeVars := v },
        .of "branching_factor" ExactSolve.branchingFactor
          fun v s => { s with branchingFactor := v } ] }

instance : Json.Codec PruneResult := Json.Record.codec
  { base := ⟨0, 0.0, [], ⟨none, 0, 0, 0.0⟩, ⟨none, 0, 0, 0.0⟩, 0.0, .inconclusive⟩
    hasDefaults := false
    fields :=
      [ .of "n" PruneResult.n fun v s => { s with n := v },
        .of "alpha" PruneResult.alpha fun v s => { s with alpha := v },
        .of "backbone" PruneResult.backbone fun v s => { s with backbone := v },
        .of "before" PruneResult.before fun v s => { s with before := v },
        .of "after" PruneResult.after fun v s => { s with after := v },
        .of "reduction_percent" PruneResult.reductionPercent
          fun v s => { s with reductionPercent := v },
        .of "diagnosis" PruneResult.diagnosis fun v s => { s with diagnosis := v } ] }

end SatLab.Backbone
