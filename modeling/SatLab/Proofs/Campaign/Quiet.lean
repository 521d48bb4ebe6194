import SatLab.Proofs.Campaign.Run
import SatLab.Proofs.Control.Quiet
/-!
Campaigns that nobody stops. No search, no measurement of search cost and no experiment says of
itself that it was cancelled, so that without a signal a campaign fails with the very error of the
phase that fails.
-/

set_option autoImplicit false
set_option relaxedAutoImplicit false

namespace SatLab

open SatLab.Task
open SatLab.Random (WordSource)

section Except

variable {ε δ α β : Type} {stopped : ε}

private theorem mapError_ne_error {g : δ → ε} (x : Except δ α) (other : ∀ e, g e ≠ stopped) :
    x.mapError g ≠ .error stopped := by
  cases x with
  | ok a => nofun
  | error e => exact fun same => other e (Except.error.inj same)

private theorem mapError_ne_of_ne {g : δ → ε} {x : Except δ α} {cause : δ}
    (other : x ≠ .error cause) (apart : ∀ e, g e = stopped → e = cause) :
    x.mapError g ≠ .error stopped := by
  cases x with
  | ok a => nofun
  | error e => exact fun same => other (congrArg _ (apart e (Except.error.inj same)))

private theorem refuse_ne_error {refused : Prop} [Decidable refused] {e : ε} {k : β → Except ε α}
    {x : Except ε α} (reason : e ≠ stopped) (other : x ≠ .error stopped) :
    (if refused then throw e >>= k else x) ≠ .error stopped := by
  split
  · exact fun same => reason (Except.error.inj same)
  · exact other

end Except

private theorem guard_ne_cancelled {α : Type} (x : Except Fault α) :
    Fault.guard x ≠ .error .cancelled :=
  mapError_ne_error x nofun

section Search

private theorem Formula.withClause_ne_cancelled (f : Formula) (c : Clause) :
    f.withClause c ≠ .error .cancelled := by
  unfold withClause ofClauses
  split <;> nofun

private theorem Uniform.ofSeed_ne_cancelled (n : Nat) (alpha : Float) (seed : Seed) :
    ofSeed n alpha seed ≠ .error .cancelled := by
  unfold ofSeed generateAt generate
  split
  · nofun
  · split
    · nofun
    · split <;> nofun

private theorem Search.solve_quiet (limit : Nat) (f : Formula) :
    (Task.mapError Error.fault (solve limit f)).Quiet .cancelled :=
  (solve_yielding limit f).quiet nofun

private theorem Search.Survey.classify_quiet (limit : Nat) (f : Formula) (m : Assignment)
    (s : Survey) (var : Nat) : (s.classify limit f m var).Quiet .cancelled := by
  unfold classify
  split
  · refine (quiet_check _).bind fun _ => (quiet_lift (guard_ne_cancelled _)).bind fun opposite => ?_
    refine (quiet_lift (f.withClause_ne_cancelled _)).bind fun strengthened => ?_
    refine (solve_quiet limit strengthened).bind fun found => (quiet_check _).bind fun _ => ?_
    exact (quiet_lift (guard_ne_cancelled _)).bind fun _ =>
      (quiet_lift (guard_ne_cancelled _)).bind fun _ => quiet_pure _
  · exact quiet_pure _

theorem Search.backbone_quiet (limit : Nat) (f : Formula) :
    (backbone limit f).Quiet .cancelled := by
  refine (quiet_check _).bind fun _ => (solve_quiet limit f).bind fun first =>
    (quiet_check _).bind fun _ => ?_
  cases first.outcome with
  | unsatisfiable | inconclusive => exact quiet_pure _
  | satisfiable m =>
    refine (quiet_lift (guard_ne_cancelled _)).bind fun _ => ?_
    exact (quiet_foldlM (Survey.classify_quiet limit f m) _).bind fun _ => quiet_pure _

end Search

section Annealing

open Annealing

variable {σ : Type} [WordSource σ]

private theorem Annealing.Schedule.validate_ne_cancelled (s : Schedule) :
    s.validate ≠ .error .cancelled := by
  refine refuse_ne_error nofun (refuse_ne_error nofun ?_)
  split
  · nofun
  · split <;> nofun

private theorem Annealing.step_ne_cancelled (f : Formula) (a : Assignment) (unsat : List Nat)
    (temperature : Float) (rule : Acceptance) (s : σ) :
    (step f a unsat temperature rule s).1 ≠ .error .cancelled := by
  unfold step propose
  split
  · nofun
  · split
    · nofun
    · split
      · nofun
      · split
        · nofun
        · split <;> nofun

private theorem Annealing.Walk.extend_quiet {f : Formula} {schedule : Schedule} {budget : Nat}
    {w : Walk} {s : σ} : (Walk.extend f schedule budget w s).Quiet .cancelled := by
  induction budget generalizing w s with
  | zero => exact quiet_pure _
  | succ budget ih =>
    refine (quiet_check _).bind fun _ =>
      (quiet_lift (step_ne_cancelled f _ _ _ _ s)).bind fun outcome => ?_
    cases outcome with
    | alreadySatisfied => exact quiet_pure _
    | moved m => exact ih

private theorem Annealing.anneal_quiet {f : Formula} {schedule : Schedule} {s : σ} :
    (anneal f schedule s).Quiet .cancelled :=
  (quiet_lift schedule.validate_ne_cancelled).bind fun _ => quiet_guard nofun <|
    (quiet_lift (guard_ne_cancelled _)).bind fun _ => Walk.extend_quiet.bind fun _ => quiet_pure _

end Annealing

section Trial

open Trial

private theorem Trial.sound_quiet {α : Type} (x : Except Fault α) :
    (sound x).Quiet (.core .cancelled) :=
  quiet_lift (mapError_ne_error x nofun)

private theorem Trial.solve_quiet (limit : Nat) (f : Formula) :
    (Trial.solve limit f).Quiet (.core .cancelled) :=
  (Search.solve_yielding limit f).quiet nofun

private theorem Trial.checkFrozenFraction_quiet (value : Float) :
    (Task.lift (checkFrozenFraction value)).Quiet (.core .cancelled) := by
  apply quiet_lift
  unfold checkFrozenFraction
  split <;> nofun

private theorem Trial.quiet_core {α : Type} {t : Task SatLab.Error α} (quiet : t.Quiet .cancelled) :
    (Task.mapError Error.core t).Quiet (.core .cancelled) :=
  quiet.mapError fun _ => Error.core.inj

private theorem Trial.Instance.formula_quiet (i : Instance) :
    (Task.lift i.formula).Quiet (.core .cancelled) := by
  apply quiet_lift
  exact mapError_ne_of_ne (Uniform.ofSeed_ne_cancelled _ _ _) fun _ => Error.core.inj

private theorem Trial.Instance.anneal_quiet {i : Instance} {f : Formula}
    {schedule : Annealing.Schedule} {stream : Uniform.Seed} :
    (i.anneal f schedule stream).Quiet (.core .cancelled) :=
  quiet_core (Annealing.anneal_quiet.bind fun _ => quiet_pure _)

private theorem Landscape.energyTail_quiet (c : Landscape.TailConfig) :
    (Landscape.energyTail c).Quiet (.core .cancelled) :=
  quiet_guard nofun <| (Instance.formula_quiet _).bind fun _ => Instance.anneal_quiet.bind fun _ =>
    (sound_quiet _).bind fun _ => quiet_pure _

private theorem Landscape.hysteresis_quiet (c : Landscape.HysteresisConfig) :
    (Landscape.hysteresis c).Quiet (.core .cancelled) :=
  quiet_guard nofun <| (Instance.formula_quiet _).bind fun _ => Instance.anneal_quiet.bind fun _ =>
    Instance.anneal_quiet.bind fun _ => quiet_pure _

private theorem Landscape.rigidityTest_quiet (c : Landscape.RigidityConfig) :
    (Landscape.rigidityTest c).Quiet (.core .cancelled) :=
  (checkFrozenFraction_quiet _).bind fun _ => (Instance.formula_quiet _).bind fun _ =>
    Instance.anneal_quiet.bind fun _ => quiet_pure _

private theorem Backbone.prune_quiet (c : Backbone.PruneConfig) :
    (Backbone.prune c).Quiet (.core .cancelled) := by
  refine (checkFrozenFraction_quiet _).bind fun _ => (Instance.formula_quiet _).bind fun f => ?_
  refine (Trial.solve_quiet _ f).bind fun full => Instance.anneal_quiet.bind fun run => ?_
  refine (sound_quiet _).bind fun ls => (sound_quiet _).bind fun reduced => ?_
  exact (Trial.solve_quiet _ reduced).bind fun cut => (quiet_check _).bind fun _ => quiet_pure _

end Trial

section Prediction

open Backbone

private theorem Backbone.BackboneSource.groundTruth_quiet {σ : Type} [WordSource σ]
    {source : BackboneSource} {f : Formula} {s : σ} :
    (source.groundTruth f s).Quiet .cancelled := by
  cases source with
  | annealing schedule frozenFraction => exact Annealing.anneal_quiet.bind fun _ => quiet_pure _
  | exact limit => exact (Search.backbone_quiet limit f).bind fun _ => quiet_pure _

private theorem Backbone.predictOn_quiet (inst : Trial.Instance) (c : PredictionConfig) :
    (predictOn inst c).Quiet (.core .cancelled) :=
  inst.formula_quiet.bind fun _ => (Trial.quiet_core BackboneSource.groundTruth_quiet).bind fun _ =>
    (Trial.sound_quiet _).bind fun _ => quiet_pure _

private theorem Backbone.sampleAccuracies_quiet (base : PredictionConfig) (samples : Nat) :
    (sampleAccuracies base samples).Quiet (.core .cancelled) :=
  (quiet_mapM fun _ => predictOn_quiet _ base).bind fun _ => quiet_pure _

private theorem Backbone.universalityTest_quiet (c : UniversalityConfig) :
    (universalityTest c).Quiet (.core .cancelled) :=
  quiet_guard nofun <| (sampleAccuracies_quiet _ _).bind fun _ => quiet_pure _

private theorem Backbone.accuracyAt_quiet (c : TrendConfig) (n number : Nat) :
    (accuracyAt c n number).Quiet (.core .cancelled) := by
  refine (sampleAccuracies_quiet _ _).bind fun accuracies => ?_
  split <;> exact quiet_pure _

private theorem Backbone.sizeTrend_quiet (c : TrendConfig) :
    (sizeTrend c).Quiet (.core .cancelled) :=
  quiet_guard nofun <| (quiet_mapM fun _ => accuracyAt_quiet c _ _).bind fun _ =>
    (quiet_lift (mapError_ne_error _ nofun)).bind fun _ => quiet_pure _

end Prediction

section Correlation

open Incidence

private theorem Incidence.spectralGap_quiet (g : Graph) (solver : GapSolver) :
    (Task.lift (spectralGap g solver)).Quiet (.core .cancelled) := by
  apply quiet_lift
  exact refuse_ne_error nofun <| refuse_ne_error nofun <| refuse_ne_error nofun nofun

theorem Incidence.sampleGap_quiet (c : GapConfig) (index : Nat) :
    (sampleGap c index).Quiet (.core .cancelled) := by
  refine (Trial.Instance.formula_quiet _).bind fun f => ?_
  refine (Trial.quiet_core (Search.backbone_quiet _ f)).bind fun report => ?_
  split
  · exact quiet_pure _
  · exact (Trial.sound_quiet _).bind fun graph => (spectralGap_quiet graph _).bind fun _ =>
      quiet_pure _

private theorem Incidence.correlateGap_quiet (c : GapConfig) :
    (correlateGap c).Quiet (.core .cancelled) :=
  quiet_guard nofun <| (quiet_mapM (sampleGap_quiet c)).bind fun _ => quiet_pure _

end Correlation

namespace Cost

private theorem Totals.extend_quiet {n : Nat} {alpha : Float} {limit : Nat} {seed : Uniform.Seed}
    {remaining number : Nat} {t : Totals} :
    (extend n alpha limit seed remaining number t).Quiet (.core .cancelled) := by
  induction remaining generalizing number t with
  | zero => exact quiet_pure t
  | succ remaining ih =>
    have drawn (s : Uniform.Seed) :
        (Uniform.ofSeed n alpha s).mapError Error.core ≠ .error .cancelled :=
      mapError_ne_of_ne (Uniform.ofSeed_ne_cancelled n alpha s) fun _ => Error.core.inj
    have searched (f : Formula) :
        (Task.mapError Error.ofFault (Search.solve limit f)).Quiet (.core .cancelled) :=
      (Search.solve_yielding limit f).quiet nofun
    refine (quiet_lift (drawn _)).bind fun f => (searched f).bind fun r => ?_
    exact (quiet_check _).bind fun _ => (quiet_lift (mapError_ne_error _ nofun)).bind fun _ => ih

private theorem measure_quiet (n : Nat) (alpha : Float) (samples limit : Nat)
    (seed : Uniform.Seed) : (measure n alpha samples limit seed).Quiet (.core .cancelled) :=
  quiet_guard nofun <| Totals.extend_quiet.bind fun _ => quiet_pure _

private theorem sweepSizes_quiet (alpha : Float) (sizes : List Nat) (samples : Nat)
    (budget : StepBudget) (seed : Uniform.Seed) :
    (sweepSizes alpha sizes samples budget seed).Quiet (.core .cancelled) :=
  quiet_mapM fun _ => measure_quiet _ _ _ _ _

private theorem sweepAlphas_quiet (n : Nat) (alphas : List Float) (samples limit : Nat)
    (seed : Uniform.Seed) : (sweepAlphas n alphas samples limit seed).Quiet (.core .cancelled) :=
  quiet_mapM fun _ => measure_quiet _ _ _ _ _

private theorem alphaGrid_quiet (lowest highest step : Float) :
    (Task.lift (alphaGrid lowest highest step)).Quiet (.core .cancelled) := by
  apply quiet_lift
  exact refuse_ne_error nofun <| refuse_ne_error nofun nofun

private theorem checkSizes_quiet (sizes : List Nat) :
    (Task.lift (checkSizes sizes)).Quiet (.core .cancelled) := by
  apply quiet_lift
  refine refuse_ne_error nofun ?_
  split <;> nofun

private theorem fitSamples_quiet (samples : List CostSample) :
    (Task.lift (fitSamples samples)).Quiet (.core .cancelled) :=
  quiet_lift (mapError_ne_error _ nofun)

private theorem scan_quiet (c : ScanConfig) : (scan c).Quiet (.core .cancelled) := by
  refine (alphaGrid_quiet _ _ _).bind fun alphas => ?_
  refine (sweepAlphas_quiet _ _ _ _ _).bind fun samples => ?_
  dsimp only
  cases peak? ScanPoint.avgSteps (samples.map CostSample.scanPoint) with
  | some p => exact quiet_pure _
  | none => exact quiet_throw nofun

private theorem scanSizes_quiet (c : GrowthConfig) : (scanSizes c).Quiet (.core .cancelled) :=
  (checkSizes_quiet _).bind fun _ => (sweepSizes_quiet _ _ _ _ _).bind fun _ =>
    (fitSamples_quiet _).bind fun _ => quiet_pure _

private theorem stressTest_quiet (c : StressConfig) : (stressTest c).Quiet (.core .cancelled) :=
  (checkSizes_quiet _).bind fun _ => (sweepSizes_quiet _ _ _ _ _).bind fun _ =>
    (fitSamples_quiet _).bind fun _ => quiet_pure _

private theorem extrapolate_quiet (c : ExtrapolationConfig) :
    (extrapolate c).Quiet (.core .cancelled) :=
  (checkSizes_quiet _).bind fun _ => quiet_guard nofun <| (sweepSizes_quiet _ _ _ _ _).bind fun _ =>
    (fitSamples_quiet _).bind fun _ => (measure_quiet _ _ _ _ _).bind fun _ => quiet_pure _

private theorem mapZones_quiet (c : ZoneConfig) : (mapZones c).Quiet (.core .cancelled) := by
  refine quiet_guard nofun <| (alphaGrid_quiet _ _ _).bind fun alphas => ?_
  refine (sweepAlphas_quiet _ _ _ _ _).bind fun samples => ?_
  dsimp only
  cases peak? ZonePoint.branchingFactor (samples.map (·.zonePoint c)) with
  | some p => exact quiet_pure _
  | none => exact quiet_throw nofun

end Cost

namespace Campaign

variable {α : Type} {wrap : α → PhaseReport} {e : Error}

private theorem isCancelled_cost {cause : Cost.Error} (other : cause ≠ .core .cancelled) :
    (Error.cost cause).isCancelled = false := by
  unfold Error.isCancelled
  split <;> simp_all

private theorem isCancelled_trial {cause : Trial.Error} (other : cause ≠ .core .cancelled) :
    (Error.trial cause).isCancelled = false := by
  unfold Error.isCancelled
  split <;> simp_all

private theorem costPhase_quiet {t : Task Cost.Error α} (quiet : t.Quiet (.core .cancelled))
    (failed : costPhase wrap t .never = .error e) : e.isCancelled = false := by
  obtain ⟨cause, ended, rfl⟩ := mapError_eq_error.mp failed
  exact isCancelled_cost ((quiet.map wrap).ne ended)

private theorem trialPhase_quiet {t : Task Trial.Error α} (quiet : t.Quiet (.core .cancelled))
    (failed : trialPhase wrap t .never = .error e) : e.isCancelled = false := by
  obtain ⟨cause, ended, rfl⟩ := mapError_eq_error.mp failed
  exact isCancelled_trial ((quiet.map wrap).ne ended)

theorem runPhase_quiet {c : Settings} {p : Progress} {phase : Phase}
    (failed : runPhase c p phase .never = .error e) : e.isCancelled = false := by
  cases phase with
  | alphaScan => exact costPhase_quiet (Cost.scan_quiet _) failed
  | sizeScan => exact costPhase_quiet (Cost.scanSizes_quiet _) failed
  | stress => exact costPhase_quiet (Cost.stressTest_quiet _) failed
  | extrapolation => exact costPhase_quiet (Cost.extrapolate_quiet _) failed
  | zones => exact costPhase_quiet (Cost.mapZones_quiet _) failed
  | energyTail => exact trialPhase_quiet (Landscape.energyTail_quiet _) failed
  | hysteresis => exact trialPhase_quiet (Landscape.hysteresis_quiet _) failed
  | rigidity => exact trialPhase_quiet (Landscape.rigidityTest_quiet _) failed
  | pruning => exact trialPhase_quiet (Backbone.prune_quiet _) failed
  | prediction => exact trialPhase_quiet (Backbone.predictOn_quiet _ _) failed
  | universality => exact trialPhase_quiet (Backbone.universalityTest_quiet _) failed
  | sizeTrend => exact trialPhase_quiet (Backbone.sizeTrend_quiet _) failed
  | gapCorrelation => exact trialPhase_quiet (Incidence.correlateGap_quiet _) failed

end Campaign

end SatLab
