import SatLab.Cnf.Error
import SatLab.Json.Record
/-!
Cooling schedules. The temperature falls by a constant factor with each step and never
below a floor; the acceptance rule says which moves that do not lower the energy are taken.
-/

set_option autoImplicit false
set_option relaxedAutoImplicit false

namespace SatLab.Annealing

/-- The rule for a move that does not lower the energy. -/
inductive Acceptance
  | metropolis
  | lenient (escapeProbability : Float)

def Acceptance.usualLenient : Acceptance := .lenient 0.1

/-- A cooling schedule with its step limit. -/
structure Schedule where
  initialTemperature : Float := 2.0
  coolingRate : Float := 0.999
  minTemperature : Float := 0.01
  maxSteps : Nat := 5000
  acceptance : Acceptance := .metropolis

def fastRate : Float := 0.95

def slowRate : Float := 0.999

namespace Schedule

def fast (maxSteps : Nat) : Schedule := { coolingRate := fastRate, maxSteps }

def slow (maxSteps : Nat) : Schedule := { coolingRate := slowRate, maxSteps }

def validate (s : Schedule) : Except Error Unit := do
  if !(0.0 < s.coolingRate && s.coolingRate ≤ 1.0) then
    throw (.rejected (.coolingRate s.coolingRate))
  if !(0.0 ≤ s.initialTemperature && 0.0 ≤ s.minTemperature) then
    throw (.rejected .negativeTemperature)
  match s.acceptance with
  | .metropolis => return
  | .lenient p => if !(0.0 ≤ p && p ≤ 1.0) then throw (.rejected (.escapeProbability p))

end Schedule

def lenientRecord : Json.Record Float where
  base := 0.0
  hasDefaults := false
  fields := [.of "escape_probability" id fun v _ => v]

/-- The rule is written as its name, the lenient one with its probability. -/
instance : Json.Codec Acceptance where
  encode
    | .metropolis => .string "Metropolis"
    | .lenient p => Json.fields [("Lenient", lenientRecord.encode p)]
  decode j := do
    match ← Json.caseOf? j with
    | ("Metropolis", none) | ("Metropolis", some .null) => return .metropolis
    | ("Lenient", some part) => return .lenient (← lenientRecord.decode part)
    | _ => none

instance : Json.Codec Schedule := Json.Record.codec
  { base := {}
    hasDefaults := true
    fields :=
      [ .of "initial_temperature" Schedule.initialTemperature
          fun v s => { s with initialTemperature := v },
        .of "cooling_rate" Schedule.coolingRate fun v s => { s with coolingRate := v },
        .of "min_temperature" Schedule.minTemperature fun v s => { s with minTemperature := v },
        .of "max_steps" Schedule.maxSteps fun v s => { s with maxSteps := v },
        .of "acceptance" Schedule.acceptance fun v s => { s with acceptance := v } ] }

end SatLab.Annealing
