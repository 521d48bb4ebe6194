import SatLab.Backbone.Pruning
import SatLab.Backbone.SizeTrend
import SatLab.Campaign.Phase
import SatLab.Cost.AlphaScan
import SatLab.Cost.Extrapolation
import SatLab.Cost.Zones
import SatLab.Incidence.Correlation
import SatLab.Landscape.EnergyTail
import SatLab.Landscape.Hysteresis
import SatLab.Landscape.Rigidity
/-!
The results of the phases, each with a summary of one line, and the report of a campaign.
-/

set_option autoImplicit false
set_option relaxedAutoImplicit false

namespace SatLab.Campaign

open Decimal (fixed plain)

inductive PhaseReport
  | alphaScan (r : Cost.ScanResult)
  | energyTail (r : Landscape.TailResult)
  | hysteresis (r : Landscape.HysteresisResult)
  | rigidity (r : Landscape.RigidityResult)
  | sizeScan (r : Cost.GrowthResult)
  | stress (r : Cost.StressResult)
  | extrapolation (r : Cost.Extrapolation)
  | zones (r : Cost.ZoneMap)
  | pruning (r : Backbone.PruneResult)
  | prediction (r : Backbone.PredictionResult)
  | universality (r : Backbone.UniversalityResult)
  | sizeTrend (r : Backbone.TrendResult)
  | gapCorrelation (r : Incidence.GapResult)

namespace PhaseReport

def phase : PhaseReport → Phase
  | alphaScan _ => .alphaScan
  | energyTail _ => .energyTail
  | hysteresis _ => .hysteresis
  | rigidity _ => .rigidity
  | sizeScan _ => .sizeScan
  | stress _ => .stress
  | extrapolation _ => .extrapolation
  | zones _ => .zones
  | pruning _ => .pruning
  | prediction _ => .prediction
  | universality _ => .universality
  | sizeTrend _ => .sizeTrend
  | gapCorrelation _ => .gapCorrelation

def summary : PhaseReport → String
  | alphaScan r =>
    s!"peak cost {fixed 1 r.peakAvgSteps} steps at alpha={fixed 2 r.peakAlpha} (n={r.n})"
  | energyTail r =>
    s!"{r.diagnosis.describe} (tail mean {fixed 2 r.meanEnergy}, " ++
    s!"variance {fixed 3 r.variance})"
  | hysteresis r =>
    s!"{r.diagnosis.describe} (slow rate {plain r.slow.coolingRate}" ++
    (if r.isDeepScan then ", deep scan)" else ")")
  | rigidity r => r.explanation
  | sizeScan r =>
    s!"{r.diagnosis.describe} (exp R2 {fixed 4 r.fit.exponential.rSquared}, " ++
    s!"power R2 {fixed 4 r.fit.power.rSquared})"
  | stress r => s!"{r.diagnosis.describe} (saturation {fixed 2 r.saturation})"
  | extrapolation r =>
    s!"{r.diagnosis.describe} (b={fixed 4 r.branchingFactor}, " ++
    s!"~10^{fixed 1 r.extrapolatedLog10} steps at n={r.targetSize})"
  | zones r =>
    s!"peak b={fixed 4 r.peakBranchingFactor} at alpha={fixed 2 r.peakAlpha} " ++
    s!"over {r.points.length} points"
  | pruning r =>
    s!"{r.diagnosis.describe} ({r.backbone.length} fixed, " ++
    s!"b reduced {fixed 1 r.reductionPercent}%)"
  | prediction r =>
    s!"{r.diagnosis.describe} (accuracy {fixed 2 r.accuracy} over " ++
    s!"{r.groundTruth.length} backbone variables)"
  | universality r =>
    s!"{r.verdict.describe} (mean accuracy {fixed 2 r.stats.mean}, " ++
    s!"consistent {fixed 2 r.consistentFraction} of {r.evaluated} evaluated)"
  | sizeTrend r => s!"{r.verdict.describe} (slope {fixed 5 r.trend.slope} per variable)"
  | gapCorrelation r =>
    s!"{r.verdict.describe} (r={(r.correlation.map (fixed 3)).getD naText}, " ++
    s!"{r.samples.length} of {r.attempted} instances)"
where
  naText : String := "n/a"

def encodeResult : PhaseReport → Json
  | alphaScan r => Json.encode r
  | energyTail r => Json.encode r
  | hysteresis r => Json.encode r
  | rigidity r => Json.encode r
  | sizeScan r => Json.encode r
  | stress r => Json.encode r
  | extrapolation r => Json.encode r
  | zones r => Json.encode r
  | pruning r => Json.encode r
  | prediction r => Json.encode r
  | universality r => Json.encode r
  | sizeTrend r => Json.encode r
  | gapCorrelation r => Json.encode r

def decodeResult (j : Json) : Phase → Option PhaseReport
  | .alphaScan => (Json.decode j).map alphaScan
  | .energyTail => (Json.decode j).map energyTail
  | .hysteresis => (Json.decode j).map hysteresis
  | .rigidity => (Json.decode j).map rigidity
  | .sizeScan => (Json.decode j).map sizeScan
  | .stress => (Json.decode j).map stress
  | .extrapolation => (Json.decode j).map extrapolation
  | .zones => (Json.decode j).map zones
  | .pruning => (Json.decode j).map pruning
  | .prediction => (Json.decode j).map prediction
  | .universality => (Json.decode j).map universality
  | .sizeTrend => (Json.decode j).map sizeTrend
  | .gapCorrelation => (Json.decode j).map gapCorrelation

end PhaseReport

def taggedRecord : Json.Record (Phase × Json) where
  base := (.alphaScan, .null)
  hasDefaults := false
  fields :=
    [ .of "phase" Prod.fst fun v s => (v, s.2),
      { name := "result"
        encode := Prod.snd
        store := fun j s => some (s.1, j)
        leaveOut := fun _ => none } ]

instance : Json.Codec PhaseReport where
  encode r := taggedRecord.encode (r.phase, r.encodeResult)
  decode j := do
    let (phase, result) ← taggedRecord.decode j
    PhaseReport.decodeResult result phase

structure CampaignReport where
  peakAlpha : Float
  trapDetected : Bool
  reports : List PhaseReport

def CampaignReport.get? (r : CampaignReport) (p : Phase) : Option PhaseReport :=
  r.reports.find? fun x => x.phase = p

end SatLab.Campaign
