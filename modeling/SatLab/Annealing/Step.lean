import SatLab.Annealing.Schedule
import SatLab.Cnf.Formula
import SatLab.Random.Source
/-!
One annealing step: draw a falsified clause, draw a literal in it, and turn its variable
over if that lowers the energy or the acceptance rule says so. The energy of an assignment
is the number of clauses it falsifies.
-/

set_option autoImplicit false
set_option relaxedAutoImplicit false

namespace SatLab.Annealing

open SatLab.Random (WordSource Draw)

variable {σ : Type} [WordSource σ]

def deltaReal (delta : Int) : Float :=
  if delta < 0 then -(toReal delta.natAbs) else toReal delta.natAbs

/-- Draws a number in `[0, 1)` and compares it with a probability. -/
def chance (p : Float) : Draw σ Bool := do
  return (← Random.unitReal) < p

/-- Decides whether a move is taken. Improvements are always taken, and at temperature zero
the Metropolis rule takes nothing else; then no word is drawn. -/
def Acceptance.accepts (rule : Acceptance) (delta : Int) (temperature : Float) : Draw σ Bool :=
  if delta < 0 then pure true
  else match rule with
    | .metropolis =>
      if temperature ≤ 0.0 then pure false
      else chance (-(deltaReal delta) / temperature).exp
    | .lenient p => chance p

/-- An evaluated move: the assignment behind it and the places of the clauses that this falsifies,
the variable that was to be turned over, whether it was, and the energy with it turned over minus
the energy before. -/
structure Move where
  assignment : Assignment
  unsat : List Nat
  flippedVar : Nat
  accepted : Bool
  delta : Int
  deriving DecidableEq, Repr

def Move.energy (m : Move) : Nat := m.unsat.length

inductive StepOutcome
  -- there was no literal to draw
  | alreadySatisfied
  | moved (m : Move)
  deriving DecidableEq, Repr

/-- The assignment with a variable turned over, and the clauses that it falsifies. -/
def candidate (f : Formula) (a : Assignment) (var : Nat) :
    Except Fault (Assignment × List Nat) := do
  let a ← a.flip var
  return (a, ← f.unsatClauses a)

/-- Turns the variable of a literal over, if the rule takes the move. -/
def propose (f : Formula) (a : Assignment) (unsat : List Nat) (temperature : Float)
    (rule : Acceptance) (l : Literal) : Draw σ (Except Error StepOutcome) := fun s =>
  match candidate f a l.var with
  | .error e => (.error (.fault e), s)
  | .ok (turned, turnedUnsat) =>
    let delta := (turnedUnsat.length : Int) - unsat.length
    let (accepted, s) := (rule.accepts delta temperature : Draw σ Bool) s
    let (assignment, unsat) := if accepted then (turned, turnedUnsat) else (a, unsat)
    (.ok (.moved { assignment, unsat, flippedVar := l.var, accepted, delta }), s)

/-- One step from an assignment and the places of the clauses it falsifies. Words drawn
before an error stay drawn. -/
def step (f : Formula) (a : Assignment) (unsat : List Nat) (temperature : Float)
    (rule : Acceptance) : Draw σ (Except Error StepOutcome) := fun s =>
  if a.size ≠ f.numVars then (.error (.rejected (.assignmentSize a.size f.numVars)), s)
  else match (Random.pick unsat : Draw σ (Option Nat)) s with
    | (none, s) => (.ok .alreadySatisfied, s)
    | (some place, s) =>
      match f.clauses[place]? with
      | none => (.error (.clauseOutOfRange place f.size), s)
      | some clause =>
        match (Random.pick clause.literals : Draw σ (Option Literal)) s with
        | (none, s) => (.ok .alreadySatisfied, s)
        | (some l, s) => propose f a unsat temperature rule l s

end SatLab.Annealing
