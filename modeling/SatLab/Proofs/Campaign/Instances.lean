import SatLab.Proofs.Campaign.Run
import SatLab.Proofs.Campaign.Seeds
import SatLab.Proofs.Incidence.Correlation
import SatLab.Proofs.Landscape.EnergyTail
/-!
The instances that the phases of a campaign are made on. Each result of a phase comes from the
instances that `Settings.instanceOf` gives for its phase: the series search them point by point, and
the experiments anneal, predict or examine them one after the other.
-/

set_option autoImplicit false
set_option relaxedAutoImplicit false

namespace SatLab.Campaign

open SatLab.Task
open SatLab.Trial (Instance)

namespace Settings

/-- The measurement at a point of a series, on the instances of its samples. -/
def measureAt (c : Settings) (phase : Phase) (n : Nat) (alpha : Float) (point samples limit : Nat) :
    Task Cost.Error Cost.CostSample :=
  Cost.measureOn n alpha limit
    ((List.range samples).map fun i => (c.instanceOf n alpha phase point i).seed)

def measureRatios (c : Settings) (phase : Phase) (n : Nat) (alphas : List Float)
    (samples limit : Nat) : Task Cost.Error (List Cost.CostSample) :=
  alphas.zipIdx.mapM fun (alpha, point) => c.measureAt phase n alpha point samples limit

def measureSizes (c : Settings) (phase : Phase) (alpha : Float) (sizes : List Nat) (samples : Nat)
    (budget : Cost.StepBudget) : Task Cost.Error (List Cost.CostSample) :=
  sizes.zipIdx.mapM fun (n, point) =>
    c.measureAt phase n alpha point samples (budget.limitFor point)

/-- The one instance of a phase that looks at a single one. -/
def ownInstance (c : Settings) (p : Progress) (phase : Phase) : Instance :=
  c.instanceOf c.instanceSize p.peakAlpha phase 0 0

/-- What the result of a phase comes from, between two states of the signal. -/
inductive Makes (c : Settings) (p : Progress) (sig sig' : Signal) : PhaseReport → Prop
  | alphaScan {r : Cost.ScanResult} {alphas : List Float} {samples : List Cost.CostSample}
      (grid : Cost.alphaGrid c.alphaScan.alphaMin c.alphaScan.alphaMax c.alphaScan.alphaStep =
        .ok alphas)
      (measured : c.measureRatios .alphaScan c.alphaScan.n alphas c.alphaScan.samplesPerAlpha
        c.alphaScan.stepLimit sig = .ok (samples, sig'))
      (points : r.points = samples.map Cost.CostSample.scanPoint) :
      c.Makes p sig sig' (.alphaScan r)
  | energyTail {r : Landscape.TailResult} {f : Formula} {run : Annealing.Run}
      (made : (c.ownInstance p .energyTail).formula = .ok f)
      (annealed : (c.ownInstance p .energyTail).anneal f c.energyTail.schedule 0 sig =
        .ok (run, sig'))
      (padded : Landscape.padHistory c.energyTail.budget run.energyTrace = .ok r.energyHistory) :
      c.Makes p sig sig' (.energyTail r)
  | hysteresis {r : Landscape.HysteresisResult} {config : Landscape.HysteresisConfig} {f : Formula}
      {fast slow : Annealing.Run} {sig₁ : Signal}
      (settings : config = c.hysteresisAfter p.trapDetected)
      (made : (c.ownInstance p .hysteresis).formula = .ok f)
      (quenched : (c.ownInstance p .hysteresis).anneal f
        { maxSteps := config.maxSteps, coolingRate := config.fastRate } 0 sig = .ok (fast, sig₁))
      (cooled : (c.ownInstance p .hysteresis).anneal f
        { maxSteps := config.slowSteps, coolingRate := config.slowRate } 1 sig₁ = .ok (slow, sig'))
      (quench : r.fast = .ofRun config.fastRate fast)
      (cooling : r.slow = .ofRun config.slowRate slow) : c.Makes p sig sig' (.hysteresis r)
  | rigidity {f : Formula} {run : Annealing.Run}
      (made : (c.ownInstance p .rigidity).formula = .ok f)
      (annealed : (c.ownInstance p .rigidity).anneal f c.rigidity.anneal 0 sig = .ok (run, sig')) :
      c.Makes p sig sig' (.rigidity
        (Landscape.examine run c.rigidity.frozenFraction c.rigidity.rigidityThreshold))
  | sizeScan {r : Cost.GrowthResult}
      (measured : c.measureSizes .sizeScan c.sizeScan.alpha c.sizeScan.sizes
        c.sizeScan.samplesPerSize c.sizeScan.budget sig = .ok (r.samples, sig')) :
      c.Makes p sig sig' (.sizeScan r)
  | stress {r : Cost.StressResult}
      (measured : c.measureSizes .stress c.stress.alpha c.stress.sizes c.stress.samplesPerSize
        c.stress.budget sig = .ok (r.samples, sig')) : c.Makes p sig sig' (.stress r)
  | extrapolation {r : Cost.Extrapolation} {sig₁ : Signal}
      (measured : c.measureSizes .extrapolation c.extrapolation.alpha c.extrapolation.fitSizes
        c.extrapolation.fitSamples c.extrapolation.fitBudget sig = .ok (r.fitSamples, sig₁))
      (probed : c.measureAt .extrapolation c.extrapolation.probeSize c.extrapolation.alpha
        c.extrapolation.fitSizes.length c.extrapolation.probeSamples c.extrapolation.probeStepLimit
        sig₁ = .ok (r.probe, sig')) : c.Makes p sig sig' (.extrapolation r)
  | zones {r : Cost.ZoneMap} {alphas : List Float} {samples : List Cost.CostSample}
      (grid : Cost.alphaGrid c.zones.alphaMin c.zones.alphaMax c.zones.alphaStep = .ok alphas)
      (measured : c.measureRatios .zones c.zones.n alphas c.zones.samplesPerAlpha c.zones.stepLimit
        sig = .ok (samples, sig'))
      (points : r.points = samples.map (·.zonePoint { c.zones with seed := c.phaseSeed .zones })) :
      c.Makes p sig sig' (.zones r)
  | pruning {r : Backbone.PruneResult} {f g : Formula} {full cut : Search.Result}
      {run : Annealing.Run} {sig₁ sig₂ sig₃ : Signal}
      (made : (c.ownInstance p .pruning).formula = .ok f)
      (searched : Trial.solve c.pruning.stepLimit f sig = .ok (full, sig₁))
      (annealed : (c.ownInstance p .pruning).anneal f c.pruning.anneal 0 sig₁ = .ok (run, sig₂))
      (guessed : Backbone.guess run c.pruning.frozenFraction = .ok r.backbone)
      (reduced : f.reduceAll r.backbone = .ok g)
      (pruned : Trial.solve c.pruning.stepLimit g sig₂ = .ok (cut, sig₃))
      (unstopped : Task.check Trial.Error.cancelled sig₃ = .ok ((), sig')) :
      c.Makes p sig sig' (.pruning r)
  | prediction {r : Backbone.PredictionResult}
      (predicted : Backbone.predictOn (c.ownInstance p .prediction) c.prediction sig =
        .ok (r, sig')) : c.Makes p sig sig' (.prediction r)
  | universality {r : Backbone.UniversalityResult} {results : List Backbone.PredictionResult}
      (predicted : ((List.range c.universality.samples).mapM fun i =>
        Backbone.predictOn (c.instanceOf c.instanceSize p.peakAlpha .universality 0 i)
          c.universality.base) sig = .ok (results, sig'))
      (accuracies : r.accuracies = results.filterMap fun r =>
        if r.diagnosis = .noBackbone then none else some r.accuracy) :
      c.Makes p sig sig' (.universality r)
  | sizeTrend {r : Backbone.TrendResult} {found : List (Option Backbone.SizeAccuracy)}
      (predicted : (c.sizeTrend.sizes.zipIdx.mapM fun (n, number) =>
        Backbone.SizeAccuracy.ofResults? n <$> (List.range c.sizeTrend.samplesPerSize).mapM fun j =>
          Backbone.predictOn (c.instanceOf n p.peakAlpha .sizeTrend number j) c.sizeTrend.base)
        sig = .ok (found, sig'))
      (points : r.points = found.filterMap id) : c.Makes p sig sig' (.sizeTrend r)
  | gapCorrelation {r : Incidence.GapResult} {config : Incidence.GapConfig}
      {found : List (Option Incidence.GapSample)}
      (settings : config = { c.gapCorrelation with
        n := c.instanceSize, alpha := p.peakAlpha, seed := c.phaseSeed .gapCorrelation })
      (examined : ((List.range c.gapCorrelation.samples).mapM fun i =>
        Incidence.gapOn (c.instanceOf c.instanceSize p.peakAlpha .gapCorrelation 0 i) config i)
        sig = .ok (found, sig'))
      (samples : r.samples = found.filterMap id) : c.Makes p sig sig' (.gapCorrelation r)

end Settings

section Phases

variable {c : Settings} {p : Progress} {phase : Phase} {r : PhaseReport} {sig sig' : Signal}

private theorem sweepAlphas_phaseSeed {n samples limit : Nat} {alphas : List Float}
    (series : phase = .alphaScan ∨ phase = .zones) :
    Cost.sweepAlphas n alphas samples limit (c.phaseSeed phase) =
      c.measureRatios phase n alphas samples limit := by
  rw [Cost.sweepAlphas_eq]
  rcases series with rfl | rfl <;> rfl

private theorem sweepSizes_phaseSeed {alpha : Float} {sizes : List Nat} {samples : Nat}
    {budget : Cost.StepBudget}
    (series : phase = .sizeScan ∨ phase = .stress ∨ phase = .extrapolation) :
    Cost.sweepSizes alpha sizes samples budget (c.phaseSeed phase) =
      c.measureSizes phase alpha sizes samples budget := by
  rw [Cost.sweepSizes_eq]
  rcases series with rfl | rfl | rfl <;> rfl

theorem makes_of_runPhase (ran : runPhase c p phase sig = .ok (r, sig')) :
    r.phase = phase ∧ c.Makes p sig sig' r := by
  refine ⟨phase_of_runPhase ran, ?_⟩
  cases phase with
  | alphaScan =>
    obtain ⟨r, measured, rfl⟩ := costPhase_eq_ok.mp ran
    obtain ⟨alphas, samples, grid, swept, points⟩ := Cost.points_of_scan measured
    rw [sweepAlphas_phaseSeed (.inl rfl)] at swept
    exact .alphaScan grid swept points
  | energyTail =>
    obtain ⟨r, tested, rfl⟩ := trialPhase_eq_ok.mp ran
    obtain ⟨-, f, run, made, annealed, padded, -⟩ := Landscape.parts_of_energyTail tested
    exact .energyTail made annealed padded
  | hysteresis =>
    obtain ⟨r, tested, rfl⟩ := trialPhase_eq_ok.mp ran
    obtain ⟨f, fast, slow, sig₁, made, quenched, cooled, quench, cooling⟩ :=
      Landscape.parts_of_hysteresis tested
    exact .hysteresis rfl made quenched cooled quench cooling
  | rigidity =>
    obtain ⟨r, tested, rfl⟩ := trialPhase_eq_ok.mp ran
    obtain ⟨f, run, made, annealed, rfl⟩ := Landscape.parts_of_rigidityTest tested
    exact .rigidity made annealed
  | sizeScan =>
    obtain ⟨r, measured, rfl⟩ := costPhase_eq_ok.mp ran
    have swept := Cost.samples_of_scanSizes measured
    rw [sweepSizes_phaseSeed (.inl rfl)] at swept
    exact .sizeScan swept
  | stress =>
    obtain ⟨r, measured, rfl⟩ := costPhase_eq_ok.mp ran
    have swept := Cost.samples_of_stressTest measured
    rw [sweepSizes_phaseSeed (.inr (.inl rfl))] at swept
    exact .stress swept
  | extrapolation =>
    obtain ⟨r, measured, rfl⟩ := costPhase_eq_ok.mp ran
    obtain ⟨sig₁, swept, probed⟩ := Cost.probe_of_extrapolate measured
    rw [sweepSizes_phaseSeed (.inr (.inr rfl))] at swept
    exact .extrapolation swept probed
  | zones =>
    obtain ⟨r, measured, rfl⟩ := costPhase_eq_ok.mp ran
    obtain ⟨alphas, samples, grid, swept, points⟩ := Cost.points_of_mapZones measured
    rw [sweepAlphas_phaseSeed (.inr rfl)] at swept
    exact .zones grid swept points
  | pruning =>
    obtain ⟨r, tested, rfl⟩ := trialPhase_eq_ok.mp ran
    obtain ⟨-, f, full, run, g, cut, sig₁, sig₂, made, searched, annealed, guessed, reduced,
      ⟨sig₃, pruned, checked⟩, -⟩ := Backbone.parts_of_prune tested
    exact .pruning made searched annealed guessed reduced pruned checked
  | prediction =>
    obtain ⟨r, tested, rfl⟩ := trialPhase_eq_ok.mp ran
    exact .prediction tested
  | universality =>
    obtain ⟨r, tested, rfl⟩ := trialPhase_eq_ok.mp ran
    obtain ⟨results, predicted, accuracies⟩ := Backbone.accuracies_of_universalityTest tested
    exact .universality predicted accuracies
  | sizeTrend =>
    obtain ⟨r, tested, rfl⟩ := trialPhase_eq_ok.mp ran
    obtain ⟨found, predicted, points⟩ := Backbone.points_of_sizeTrend tested
    simp only [Backbone.accuracyAt_eq] at predicted
    exact .sizeTrend predicted points
  | gapCorrelation =>
    obtain ⟨r, tested, rfl⟩ := trialPhase_eq_ok.mp ran
    obtain ⟨found, examined, samples⟩ := Incidence.found_of_correlateGap tested
    exact .gapCorrelation rfl examined samples

end Phases

end SatLab.Campaign
