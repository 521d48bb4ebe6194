import SatLab.Campaign.Settings
/-!
Runs of a campaign. The selected phases run in their order, and two things go from phase to
phase: the clause ratio of the largest search cost, at which all later experiments on
instances are made, and whether the energy tail showed a trap, after which hysteresis is a
deep scan. The seed of a phase depends on the phase alone.
-/

set_option autoImplicit false
set_option relaxedAutoImplicit false

namespace SatLab.Campaign

/-- What an onlooker is told during a run. -/
inductive Event
  | started (p : Phase)
  | finished (r : PhaseReport)

/-- What is known after some phases. -/
structure Progress where
  peakAlpha : Float
  trapDetected : Bool := false
  -- the results so far, last first
  done : List PhaseReport := []

namespace Progress

def add (p : Progress) (r : PhaseReport) : Progress where
  peakAlpha := match r with
    | .alphaScan s => s.peakAlpha
    | _ => p.peakAlpha
  trapDetected := match r with
    | .energyTail t => t.diagnosis.isTrap
    | _ => p.trapDetected
  done := r :: p.done

def report (p : Progress) : CampaignReport := ⟨p.peakAlpha, p.trapDetected, p.done.reverse⟩

end Progress

namespace Settings

def initial (c : Settings) : Progress := { peakAlpha := c.fallbackAlpha }

def phaseSeed (c : Settings) (p : Phase) : Uniform.Seed :=
  Uniform.deriveSeed c.seed p.index.toUInt64

/-- The hysteresis settings after an energy tail: a trap asks for a deep scan. -/
def hysteresisAfter (c : Settings) (trapDetected : Bool) : Landscape.HysteresisConfig :=
  if trapDetected && !Landscape.isDeepScan c.hysteresis.slowRate then c.hysteresis.deepScan
  else c.hysteresis

end Settings

def costPhase {α : Type} (wrap : α → PhaseReport) (t : Task Cost.Error α) :
    Task Error PhaseReport :=
  Task.mapError .cost (wrap <$> t)

def trialPhase {α : Type} (wrap : α → PhaseReport) (t : Task Trial.Error α) :
    Task Error PhaseReport :=
  Task.mapError .trial (wrap <$> t)

def runPhase (c : Settings) (p : Progress) (phase : Phase) : Task Error PhaseReport :=
  let n := c.instanceSize
  let alpha := p.peakAlpha
  let seed := c.phaseSeed phase
  match phase with
  | .alphaScan => costPhase .alphaScan (Cost.scan { c.alphaScan with seed })
  | .energyTail =>
    trialPhase .energyTail (Landscape.energyTail { c.energyTail with n, alpha, seed })
  | .hysteresis =>
    trialPhase .hysteresis
      (Landscape.hysteresis { c.hysteresisAfter p.trapDetected with n, alpha, seed })
  | .rigidity => trialPhase .rigidity (Landscape.rigidityTest { c.rigidity with n, alpha, seed })
  | .sizeScan => costPhase .sizeScan (Cost.scanSizes { c.sizeScan with seed })
  | .stress => costPhase .stress (Cost.stressTest { c.stress with seed })
  | .extrapolation =>
    costPhase .extrapolation (Cost.extrapolate { c.extrapolation with seed })
  | .zones => costPhase .zones (Cost.mapZones { c.zones with seed })
  | .pruning => trialPhase .pruning (Backbone.prune { c.pruning with n, alpha, seed })
  | .prediction =>
    trialPhase .prediction (Backbone.predictionTest { c.prediction with n, alpha, seed })
  | .universality =>
    let base := { c.universality.base with n, alpha, seed }
    trialPhase .universality (Backbone.universalityTest { c.universality with base })
  | .sizeTrend =>
    let base := { c.sizeTrend.base with alpha, seed }
    trialPhase .sizeTrend (Backbone.sizeTrend { c.sizeTrend with base })
  | .gapCorrelation =>
    trialPhase .gapCorrelation
      (Incidence.correlateGap { c.gapCorrelation with n, alpha, seed })

/-- Runs phases one after the other, with a poll of the stop signal in front of each. The
onlooker hears each event and may make the signal fire. -/
def runPhases (c : Settings) (onlooker : Event → Signal → Signal) :
    List Phase → Progress → Signal → List Event × Except Error Progress
  | [], p, _ => ([], .ok p)
  | phase :: rest, p, signal =>
    if signal.isFired then ([], .error .cancelled)
    else
      match runPhase c p phase (onlooker (.started phase) signal.next) with
      | .error e => ([.started phase], .error e.normalised)
      | .ok (r, signal) =>
        let (events, outcome) :=
          runPhases c onlooker rest (p.add r) (onlooker (.finished r) signal)
        (.started phase :: .finished r :: events, outcome)

/-- Runs a campaign: the events in order and the outcome. -/
def run (c : Settings) (onlooker : Event → Signal → Signal) (signal : Signal) :
    List Event × Except Error CampaignReport :=
  let (events, outcome) := runPhases c onlooker c.selected c.initial signal
  (events, outcome.map Progress.report)

def outcome (c : Settings) : Except Error CampaignReport :=
  (run c (fun _ s => s) .never).2

end SatLab.Campaign
