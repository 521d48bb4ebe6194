import SatLab.Campaign.Error
import SatLab.Campaign.Report
import SatLab.Json.Printer
import SatLab.Json.Reader
/-!
The settings of a campaign: one JSON document for all phases. Missing fields take their
defaults, so that a document lists only what it changes. The `parallel` of a phase is kept with
its settings and read by nothing: points and instances are taken one after the other, and where
several of them fail the first failure is told.
-/

set_option autoImplicit false
set_option relaxedAutoImplicit false

namespace SatLab.Campaign

/-- The settings of a campaign. The size, clause ratio and seed of the experiments on
instances, and the seeds of the measurements of cost, give way to those of the campaign. -/
structure Settings where
  phases : List Phase := Phase.all
  instanceSize : Nat := 50
  fallbackAlpha : Float := Cost.criticalAlpha
  seed : Uniform.Seed := 42
  alphaScan : Cost.ScanConfig := {}
  energyTail : Landscape.TailConfig := {}
  hysteresis : Landscape.HysteresisConfig := {}
  rigidity : Landscape.RigidityConfig := {}
  sizeScan : Cost.GrowthConfig := {}
  stress : Cost.StressConfig := {}
  extrapolation : Cost.ExtrapolationConfig := {}
  zones : Cost.ZoneConfig := {}
  pruning : Backbone.PruneConfig := {}
  prediction : Backbone.PredictionConfig := {}
  universality : Backbone.UniversalityConfig := {}
  sizeTrend : Backbone.TrendConfig := {}
  gapCorrelation : Incidence.GapConfig := {}

namespace Settings

def fast : Settings where
  instanceSize := 20
  alphaScan := .fast
  energyTail := { budget := 1000 }
  hysteresis := { maxSteps := 2000 }
  rigidity := { anneal := .slow 2000 }
  sizeScan := .fast
  stress := { sizes := [20, 25, 30], samplesPerSize := 3, budget := .doubling 20000 200000 }
  extrapolation := .fast
  zones := { n := 16, alphaStep := 0.5, samplesPerAlpha := 5, stepLimit := 50000 }
  pruning := { stepLimit := 100000 }
  universality := { samples := 6 }
  sizeTrend := { sizes := [15, 20, 25], samplesPerSize := 3 }
  gapCorrelation := { samples := 4 }

def withPhases (c : Settings) (phases : List Phase) : Settings := { c with phases }

def runs (c : Settings) (p : Phase) : Bool := c.phases.contains p

def selected (c : Settings) : List Phase := Phase.all.filter c.runs

instance : Json.Codec Settings := Json.Record.codec
  { base := {}
    hasDefaults := true
    fields :=
      [ .of "phases" Settings.phases fun v s => { s with phases := v },
        .of "probe_n" Settings.instanceSize fun v s => { s with instanceSize := v },
        .of "fallback_alpha" Settings.fallbackAlpha fun v s => { s with fallbackAlpha := v },
        .of "seed" Settings.seed fun v s => { s with seed := v },
        .of "macro_scan" Settings.alphaScan fun v s => { s with alphaScan := v },
        .of "variance" Settings.energyTail fun v s => { s with energyTail := v },
        .of "hysteresis" Settings.hysteresis fun v s => { s with hysteresis := v },
        .of "autopsy" Settings.rigidity fun v s => { s with rigidity := v },
        .of "scaling" Settings.sizeScan fun v s => { s with sizeScan := v },
        .of "stress" Settings.stress fun v s => { s with stress := v },
        .of "confirmation" Settings.extrapolation fun v s => { s with extrapolation := v },
        .of "boundary" Settings.zones fun v s => { s with zones := v },
        .of "prune" Settings.pruning fun v s => { s with pruning := v },
        .of "generalization" Settings.prediction fun v s => { s with prediction := v },
        .of "universality" Settings.universality fun v s => { s with universality := v },
        .of "adversarial" Settings.sizeTrend fun v s => { s with sizeTrend := v },
        .of "spectral" Settings.gapCorrelation fun v s => { s with gapCorrelation := v } ] }

def parse (text : String) : Except Error Settings :=
  match Json.parse? text >>= Json.decode with
  | some c => .ok c
  | none => .error .malformed

def load (path : String) (content : Option String) : Except Error Settings :=
  match content with
  | some text => parse text
  | none => .error (.unreadable path)

def render (c : Settings) : String := Json.pretty (Json.encode c)

end Settings

end SatLab.Campaign
