import SatLab.Cost.Sample
/-!
Series of measurements. The points of a series draw their instances from seeds that are
far apart: the `i`-th point has the `i * 2^32`-th seed under the seed of the series.
-/

set_option autoImplicit false
set_option relaxedAutoImplicit false

namespace SatLab.Cost

open SatLab.Uniform (Seed deriveSeed)

/-- A step limit that grows by a constant factor along a series, up to a cap. -/
structure StepBudget where
  base : Nat
  growth : Float
  max : Nat

/-- A power by squaring; `factor` is the square due next. -/
def powerBySquaring (acc factor : Float) (exponent : Nat) : Float :=
  let acc := if exponent % 2 = 1 then acc * factor else acc
  if exponent / 2 = 0 then acc
  else powerBySquaring acc (factor * factor) (exponent / 2)
termination_by exponent

namespace StepBudget

def doubling (base max : Nat) : StepBudget := ⟨base, 2.0, max⟩

/-- The limit of a numbered point; at least one step unless the cap is lower. -/
def limitFor (b : StepBudget) (point : Nat) : Nat :=
  let scaled := toReal b.base * powerBySquaring 1.0 b.growth (min point (0x80000000 - 1))
  if !scaled.isFinite || toReal b.max ≤ scaled then b.max else Nat.max (ofReal scaled) 1

instance : Json.Codec StepBudget := Json.Record.codec
  { base := ⟨0, 0.0, 0⟩
    hasDefaults := false
    fields :=
      [ .of "base" StepBudget.base fun v s => { s with base := v },
        .of "growth" StepBudget.growth fun v s => { s with growth := v },
        .of "max" StepBudget.max fun v s => { s with max := v } ] }

end StepBudget

def pointSeed (base : Seed) (point : Nat) : Seed :=
  deriveSeed base (point.toUInt64 <<< 32)

/-- The clause ratios from `lowest` in steps, up to `highest` and a little beyond to make up
for rounding. -/
def alphaGrid (lowest highest step : Float) : Except Error (List Float) := do
  if !(0.0 < step && 0.0 ≤ lowest && lowest ≤ highest) then
    throw (.rejected (.grid lowest highest step))
  let last := ofReal ((highest - lowest) / step + 1e-9).floor
  if tableBound ≤ last + 1 then throw (.ofFault .oversized)
  return (List.range (last + 1)).map fun i => lowest + toReal i * step

def sweepSizes (alpha : Float) (sizes : List Nat) (samples : Nat) (budget : StepBudget)
    (seed : Seed) : Task Error (List CostSample) :=
  sizes.zipIdx.mapM fun (n, point) =>
    measure n alpha samples (budget.limitFor point) (pointSeed seed point)

def sweepAlphas (n : Nat) (alphas : List Float) (samples limit : Nat) (seed : Seed) :
    Task Error (List CostSample) :=
  alphas.zipIdx.mapM fun (alpha, point) =>
    measure n alpha samples limit (pointSeed seed point)

def costCurve (samples : List CostSample) : List (Float × Float) :=
  samples.map fun s => (toReal s.n, s.avgSteps)

/-- The first element of the largest height. -/
def peak? {α : Type} (height : α → Float) (items : List α) : Option α :=
  items.foldl (fun best a => match best with
    | some b => if height a ≤ height b then some b else some a
    | none => some a) none

end SatLab.Cost
