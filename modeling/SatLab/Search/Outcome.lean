import SatLab.Cnf.Formula
/-!
What an exact search finds and what it costs.
-/

set_option autoImplicit false
set_option relaxedAutoImplicit false

namespace SatLab.Search

/-- The answer of an exact search. -/
inductive Outcome
  | satisfiable (model : Assignment)
  | unsatisfiable
  | inconclusive
  deriving DecidableEq, Repr

/-- An answer and the work spent on it. -/
structure Result where
  outcome : Outcome
  -- formulas examined
  steps : Nat
  -- formulas that held an empty clause
  backtracks : Nat
  deriving DecidableEq, Repr

namespace Outcome

def model? : Outcome → Option Assignment
  | .satisfiable m => some m
  | _ => none

/-- Whether the formula has a model, as far as the search decided it. -/
def verdict? : Outcome → Option Bool
  | .satisfiable _ => some true
  | .unsatisfiable => some false
  | .inconclusive => none

end Outcome

/-- The effective number of branches per variable, `steps ^ (1 / n)`; one when there are no
variables or no work. -/
def branchingFactor (steps : Float) (n : Nat) : Float :=
  if n = 0 || steps ≤ 1.0 then 1.0 else Float.pow steps (1.0 / toReal n)

def Result.branchingFactor (r : Result) (n : Nat) : Float :=
  Search.branchingFactor (toReal r.steps) n

end SatLab.Search
