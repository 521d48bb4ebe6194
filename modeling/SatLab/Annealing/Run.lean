import SatLab.Annealing.Step
import SatLab.Cnf.Uniform
import SatLab.Control.Signal
/-!
Annealing runs: steps along a cooling schedule until nothing is left to repair or the step
limit is reached. The run records the energy after each step, the best assignment seen and
how often each variable was turned over.
-/

set_option autoImplicit false
set_option relaxedAutoImplicit false

namespace SatLab.Annealing

open SatLab.Random (WordSource Draw)

/-- Everything recorded during one run. -/
structure Run where
  assignment : Assignment
  -- the first assignment of the lowest energy seen
  bestAssignment : Assignment
  bestEnergy : Nat
  finalEnergy : Nat
  steps : Nat
  acceptedMoves : Nat
  flipCounts : Array Nat
  energyTrace : List Nat
  finalTemperature : Float

namespace Run

def solved (r : Run) : Bool := r.finalEnergy == 0

/-- The variables turned over at most `fraction * steps` times, ascending. -/
def frozenVars (r : Run) (fraction : Float) : List Nat :=
  (r.flipCounts.toList.zipIdx 1).filterMap fun (count, v) =>
    if toReal count ≤ fraction * toReal r.steps then some v else none

end Run

/-- A run under way, with the places of the clauses that its assignment falsifies. -/
structure Walk where
  assignment : Assignment
  unsat : List Nat
  bestAssignment : Assignment
  bestEnergy : Nat
  temperature : Float
  steps : Nat
  acceptedMoves : Nat
  flipCounts : Array Nat
  -- the energy after each step, last first
  trace : List Nat

namespace Walk

def start (schedule : Schedule) (a : Assignment) (unsat : List Nat) : Walk where
  assignment := a
  unsat := unsat
  bestAssignment := a
  bestEnergy := unsat.length
  temperature := larger schedule.initialTemperature schedule.minTemperature
  steps := 0
  acceptedMoves := 0
  flipCounts := Array.replicate a.size 0
  trace := []

def advance (w : Walk) (schedule : Schedule) (m : Move) : Walk :=
  let improved := m.energy < w.bestEnergy
  { assignment := m.assignment
    unsat := m.unsat
    bestAssignment := if improved then m.assignment else w.bestAssignment
    bestEnergy := if improved then m.energy else w.bestEnergy
    temperature := larger (w.temperature * schedule.coolingRate) schedule.minTemperature
    steps := w.steps + 1
    acceptedMoves := if m.accepted then w.acceptedMoves + 1 else w.acceptedMoves
    flipCounts :=
      if m.accepted then w.flipCounts.modify (m.flippedVar - 1) (· + 1) else w.flipCounts
    trace := m.energy :: w.trace }

def toRun (w : Walk) : Run where
  assignment := w.assignment
  bestAssignment := w.bestAssignment
  bestEnergy := w.bestEnergy
  finalEnergy := w.unsat.length
  steps := w.steps
  acceptedMoves := w.acceptedMoves
  flipCounts := w.flipCounts
  energyTrace := w.trace.reverse
  finalTemperature := w.temperature

variable {σ : Type} [WordSource σ]

/-- Takes at most `budget` further steps. -/
def extend (f : Formula) (schedule : Schedule) :
    Nat → Walk → StateT σ (Task Error) Walk
  | 0, w => return w
  | budget + 1, w => fun s => do
    Task.check .cancelled
    let (outcome, s) := step f w.assignment w.unsat w.temperature schedule.acceptance s
    match ← Task.lift outcome with
    | .alreadySatisfied => return (w, s)
    | .moved m => extend f schedule budget (w.advance schedule m) s

end Walk

variable {σ : Type} [WordSource σ]

/-- Anneals from a given assignment. -/
def annealFrom (f : Formula) (a : Assignment) (schedule : Schedule) :
    StateT σ (Task Error) Run := fun s => do
  Task.lift schedule.validate
  if a.size ≠ f.numVars then throw (.rejected (.assignmentSize a.size f.numVars))
  let unsat ← Task.lift (Fault.guard (f.unsatClauses a))
  let (w, s) ← Walk.extend f schedule schedule.maxSteps (.start schedule a unsat) s
  return (w.toRun, s)

/-- Anneals from a random assignment. -/
def anneal (f : Formula) (schedule : Schedule) : StateT σ (Task Error) Run := fun s =>
  let (a, s) := (Uniform.drawAssignment f.numVars : Draw σ Assignment) s
  annealFrom f a schedule s

instance : Json.Codec Run := Json.Record.codec
  { base := ⟨⟨#[]⟩, ⟨#[]⟩, 0, 0, 0, 0, #[], [], 0.0⟩
    hasDefaults := false
    fields :=
      [ .of "assignment" Run.assignment fun v s => { s with assignment := v },
        .of "best_assignment" Run.bestAssignment fun v s => { s with bestAssignment := v },
        .of "best_energy" Run.bestEnergy fun v s => { s with bestEnergy := v },
        .of "final_energy" Run.finalEnergy fun v s => { s with finalEnergy := v },
        .of "steps" Run.steps fun v s => { s with steps := v },
        .of "accepted_moves" Run.acceptedMoves fun v s => { s with acceptedMoves := v },
        .of "flip_counts" Run.flipCounts fun v s => { s with flipCounts := v },
        .of "energy_trace" Run.energyTrace fun v s => { s with energyTrace := v },
        .of "final_temperature" Run.finalTemperature
          fun v s => { s with finalTemperature := v } ] }

end SatLab.Annealing
