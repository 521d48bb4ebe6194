import SatLab.Campaign.Run
/-!
What settings say in vain. A campaign makes its own instances: the size, the clause ratio and the
seed that the parameters of an experiment name, and the seed that those of a measurement of search
cost name, give way to what the campaign knows before any phase reads them.
-/

set_option autoImplicit false
set_option relaxedAutoImplicit false

namespace SatLab.Backbone

private theorem sizeTrend_overwrites (c : TrendConfig) (n : Nat) :
    sizeTrend { c with base := { c.base with n } } = sizeTrend c := by
  have point : accuracyAt { c with base := { c.base with n } } = accuracyAt c := by
    funext size number
    rw [accuracyAt, accuracyAt, PredictionConfig.withInstance, PredictionConfig.withInstance]
  rw [sizeTrend, sizeTrend, point]

end SatLab.Backbone

namespace SatLab.Campaign

open SatLab.Trial (Instance)

/-- The settings with another instance named in the parameters of each phase. Parameters that ask
for a seed alone take the seed of the instance. -/
def Settings.withInstances (c : Settings) (named : Phase → Instance) : Settings :=
  { c with
    alphaScan := { c.alphaScan with seed := (named .alphaScan).seed }
    energyTail := { c.energyTail with
      n := (named .energyTail).n, alpha := (named .energyTail).alpha
      seed := (named .energyTail).seed }
    hysteresis := { c.hysteresis with
      n := (named .hysteresis).n, alpha := (named .hysteresis).alpha
      seed := (named .hysteresis).seed }
    rigidity := { c.rigidity with
      n := (named .rigidity).n, alpha := (named .rigidity).alpha, seed := (named .rigidity).seed }
    sizeScan := { c.sizeScan with seed := (named .sizeScan).seed }
    stress := { c.stress with seed := (named .stress).seed }
    extrapolation := { c.extrapolation with seed := (named .extrapolation).seed }
    zones := { c.zones with seed := (named .zones).seed }
    pruning := { c.pruning with
      n := (named .pruning).n, alpha := (named .pruning).alpha, seed := (named .pruning).seed }
    prediction := { c.prediction with
      n := (named .prediction).n, alpha := (named .prediction).alpha
      seed := (named .prediction).seed }
    universality.base := { c.universality.base with
      n := (named .universality).n, alpha := (named .universality).alpha
      seed := (named .universality).seed }
    sizeTrend.base := { c.sizeTrend.base with
      n := (named .sizeTrend).n, alpha := (named .sizeTrend).alpha
      seed := (named .sizeTrend).seed }
    gapCorrelation := { c.gapCorrelation with
      n := (named .gapCorrelation).n, alpha := (named .gapCorrelation).alpha
      seed := (named .gapCorrelation).seed } }

section Overwriting

variable (c : Settings) (named : Phase → Instance) {p : Progress} {phase : Phase}

private theorem hysteresisAfter_withInstances (trap : Bool) (inst : Instance) :
    ({ (c.withInstances named).hysteresisAfter trap with
        n := inst.n, alpha := inst.alpha, seed := inst.seed } : Landscape.HysteresisConfig) =
      { c.hysteresisAfter trap with n := inst.n, alpha := inst.alpha, seed := inst.seed } := by
  have rate : (c.withInstances named).hysteresis.slowRate = c.hysteresis.slowRate := rfl
  rw [Settings.hysteresisAfter, Settings.hysteresisAfter, rate]
  split <;> rfl

private theorem runPhase_withInstances :
    runPhase (c.withInstances named) p phase = runPhase c p phase := by
  cases phase with
  | alphaScan | sizeScan | stress | extrapolation | zones | energyTail | rigidity | pruning
  | prediction | universality | gapCorrelation => rfl
  | hysteresis =>
    have parameters := hysteresisAfter_withInstances c named p.trapDetected
      ⟨c.instanceSize, p.peakAlpha, c.phaseSeed .hysteresis⟩
    exact congrArg (fun h => trialPhase .hysteresis (Landscape.hysteresis h)) parameters
  | sizeTrend =>
    -- the campaign leaves the size alone, but the trend does not read it
    have size := Backbone.sizeTrend_overwrites
      { c.sizeTrend with base := { c.sizeTrend.base with
        alpha := p.peakAlpha, seed := c.phaseSeed .sizeTrend } } (named .sizeTrend).n
    exact congrArg (trialPhase .sizeTrend) size

private theorem runPhases_withInstances (onlooker : Event → Signal → Signal) (phases : List Phase)
    (sig : Signal) : runPhases (c.withInstances named) onlooker phases p sig =
      runPhases c onlooker phases p sig := by
  induction phases generalizing p sig with
  | nil => rfl
  | cons phase phases ih => simp only [runPhases, runPhase_withInstances, ih]

private theorem run_withInstances (onlooker : Event → Signal → Signal) (sig : Signal) :
    run (c.withInstances named) onlooker sig = run c onlooker sig := by
  have selected : (c.withInstances named).selected = c.selected := rfl
  have initial : (c.withInstances named).initial = c.initial := rfl
  rw [run, run, selected, initial, runPhases_withInstances]

end Overwriting

/-- Settings that differ in the instances they name, and in nothing else, make the same campaign:
the same events and the same outcome, whatever the signal and whoever looks on. -/
theorem run_eq_of_alike {c c' : Settings} {named : Phase → Instance}
    (alike : c.withInstances named = c'.withInstances named)
    (onlooker : Event → Signal → Signal) (sig : Signal) :
    run c onlooker sig = run c' onlooker sig := by
  rw [← run_withInstances c named, alike, run_withInstances c' named]

/-- The usual settings, but with other instances in the parameters of a measurement of search cost,
of an experiment and of the predictions inside two experiments. -/
def strayNames : Settings where
  alphaScan := { seed := 9 }
  energyTail := { n := 7, alpha := 1.0, seed := 9 }
  universality := { base := { n := 7, alpha := 1.0, seed := 9 } }
  sizeTrend := { base := { n := 7, alpha := 1.0, seed := 9 } }

theorem run_strayNames : strayNames.energyTail.n ≠ ({} : Settings).energyTail.n ∧
    strayNames.sizeTrend.base.n ≠ ({} : Settings).sizeTrend.base.n ∧
    run strayNames (fun _ s => s) .never = run {} (fun _ s => s) .never := by
  have alike : strayNames.withInstances (fun _ => ⟨50, 4.26, 42⟩) =
      ({} : Settings).withInstances fun _ => ⟨50, 4.26, 42⟩ := rfl
  exact ⟨by decide, by decide, run_eq_of_alike alike _ _⟩

end SatLab.Campaign
