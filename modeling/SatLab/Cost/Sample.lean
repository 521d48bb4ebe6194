import SatLab.Cnf.Uniform
import SatLab.Cost.Error
import SatLab.Search.Stack
/-!
The cost of exact search at one size and clause ratio, measured on independent instances.
A search that hits the step limit counts with the steps it took, so that the average is a
lower bound whenever there is such a search.
-/

set_option autoImplicit false
set_option relaxedAutoImplicit false

namespace SatLab.Cost

open SatLab.Uniform (Seed deriveSeed)

/-- What was measured at one size and clause ratio. -/
structure CostSample where
  n : Nat
  alpha : Float
  samples : Nat
  stepLimit : Nat
  avgSteps : Float
  maxSteps : Nat
  satisfiable : Nat
  unsatisfiable : Nat
  inconclusive : Nat

namespace CostSample

def satRatio (s : CostSample) : Float := ratio s.satisfiable s.samples

def inconclusiveRatio (s : CostSample) : Float := ratio s.inconclusive s.samples

def branchingFactor (s : CostSample) : Float := Search.branchingFactor s.avgSteps s.n

end CostSample

/-- Sums over the instances searched so far. -/
structure Totals where
  steps : Nat := 0
  maxSteps : Nat := 0
  satisfiable : Nat := 0
  unsatisfiable : Nat := 0
  inconclusive : Nat := 0
  deriving DecidableEq, Repr

namespace Totals

def add (t : Totals) (r : Search.Result) : Except Fault Totals := do
  let steps ← addCounters t.steps r.steps
  let t := { t with steps, maxSteps := max t.maxSteps r.steps }
  return match r.outcome with
    | .satisfiable _ => { t with satisfiable := t.satisfiable + 1 }
    | .unsatisfiable => { t with unsatisfiable := t.unsatisfiable + 1 }
    | .inconclusive => { t with inconclusive := t.inconclusive + 1 }

/-- Searches `remaining` further instances, the next one with the given number. -/
def extend (n : Nat) (alpha : Float) (limit : Nat) (seed : Seed) :
    (remaining number : Nat) → Totals → Task Error Totals
  | 0, _, t => return t
  | remaining + 1, number, t => do
    let instanceSeed := deriveSeed seed number.toUInt64
    let f ← Task.lift ((Uniform.ofSeed n alpha instanceSeed).mapError .core)
    let r ← Task.mapError .ofFault (Search.solve limit f)
    Task.check .cancelled
    let t ← Task.lift ((t.add r).mapError .ofFault)
    extend n alpha limit seed remaining (number + 1) t

end Totals

/-- Searches `samples` instances; the `i`-th one is made from the `i`-th seed under `seed`. -/
def measure (n : Nat) (alpha : Float) (samples limit : Nat) (seed : Seed) :
    Task Error CostSample := do
  if samples = 0 then throw (.rejected .noSamples)
  let t ← Totals.extend n alpha limit seed samples 0 {}
  return {
    n, alpha, samples
    stepLimit := limit
    avgSteps := toReal t.steps / toReal samples
    maxSteps := t.maxSteps
    satisfiable := t.satisfiable
    unsatisfiable := t.unsatisfiable
    inconclusive := t.inconclusive }

instance : Json.Codec CostSample := Json.Record.codec
  { base := ⟨0, 0.0, 0, 0, 0.0, 0, 0, 0, 0⟩
    hasDefaults := false
    fields :=
      [ .of "n" CostSample.n fun v s => { s with n := v },
        .of "alpha" CostSample.alpha fun v s => { s with alpha := v },
        .of "samples" CostSample.samples fun v s => { s with samples := v },
        .of "step_limit" CostSample.stepLimit fun v s => { s with stepLimit := v },
        .of "avg_steps" CostSample.avgSteps fun v s => { s with avgSteps := v },
        .of "max_steps" CostSample.maxSteps fun v s => { s with maxSteps := v },
        .of "satisfiable" CostSample.satisfiable fun v s => { s with satisfiable := v },
        .of "unsatisfiable" CostSample.unsatisfiable fun v s => { s with unsatisfiable := v },
        .of "inconclusive" CostSample.inconclusive fun v s => { s with inconclusive := v } ] }

end SatLab.Cost
