import SatLab.Proofs.Backbone.Stopped
import SatLab.Proofs.Campaign.Run
/-!
Campaigns under a stop signal. Each phase is cut short or reports what it reports without a signal,
so that a campaign is cut short in one way, and what an onlooker hears of it is the beginning of
what he would hear.
-/

set_option autoImplicit false
set_option relaxedAutoImplicit false

namespace SatLab.Campaign

open SatLab.Task
open SatLab.Random (WordSource)

def Error.overflow : Error := .trial (.ofFault .overflow)

private theorem runPhase_firm (c : Settings) (p : Progress) (phase : Phase) :
    ((runPhase c p phase).mapError Error.normalised).Firm .cancelled .overflow := by
  by_cases other : phase = .pruning
  · subst other
    exact (((Backbone.prune_firm _).map PhaseReport.pruning).mapError Error.trial).mapError
      Error.normalised
  · exact (runPhase_steady other).firm

private theorem Error.normalised_eq {e : Error} (stopped : e.normalised.isCancelled = true) :
    e.normalised = .cancelled := by
  unfold normalised at stopped ⊢
  split
  · rfl
  · rename_i other
    rw [if_neg other] at stopped
    exact absurd stopped other

section Phases

variable {c : Settings} {onlooker : Event → Signal → Signal} {sig : Signal}

private theorem started_prefix_quiet (c : Settings) (phase : Phase) (phases : List Phase)
    (p : Progress) :
    [.started phase] <+: (runPhases c (fun _ s => s) (phase :: phases) p .never).1 := by
  cases ran : runPhase c p phase .never with
  | error e =>
    rw [runPhases_quiet_of_error ran]
  | ok given =>
    obtain ⟨r, sig⟩ := given
    obtain rfl := signal_of_runPhase ran
    rw [runPhases_quiet_of_ok ran]
    exact List.cons_prefix_cons.mpr ⟨rfl, List.nil_prefix⟩

/-- Phases under a signal, `stopped`, beside the same phases without one. -/
structure CutOrSame (stopped quiet : List Event × Except Error Progress) : Prop where
  heard : stopped.1 <+: quiet.1
  outcome : stopped.2 = .error .cancelled ∨ stopped.2 = quiet.2 ∨
    quiet.2 = .error .overflow ∧ ∃ e, stopped.2 = .error e

private theorem runPhases_cutOrSame (phases : List Phase) (p : Progress) (sig : Signal) :
    CutOrSame (runPhases c onlooker phases p sig)
      (runPhases c (fun _ s => s) phases p .never) := by
  induction phases generalizing p sig with
  | nil => exact ⟨List.prefix_rfl, .inr (.inl rfl)⟩
  | cons phase phases ih =>
    by_cases fired : sig.isFired = true
    · rw [runPhases, if_pos fired]
      exact ⟨List.nil_prefix, .inl rfl⟩
    · have unfired : sig.isFired = false := Bool.eq_false_iff.mpr fired
      rcases runPhase_firm c p phase (onlooker (.started phase) sig.next) with
        cut | (⟨quiet, same⟩ | ⟨quiet, same, -⟩) | ⟨breaks, e, other⟩
      · -- the phase has begun in both runs, and the one under the signal ends here
        obtain ⟨e, failed, told⟩ := mapError_eq_error.mp cut
        rw [runPhases_of_error unfired failed, told]
        exact ⟨started_prefix_quiet c phase phases p, .inl rfl⟩
      · obtain ⟨e, failed, told⟩ := mapError_eq_error.mp quiet
        obtain ⟨e', failed', told'⟩ := mapError_eq_error.mp same
        rw [runPhases_of_error unfired failed', runPhases_quiet_of_error failed, told, told']
        exact ⟨List.prefix_rfl, .inr (.inl rfl)⟩
      · rename_i r left
        have ran := mapError_eq_ok.mp same
        have ranQuiet := mapError_eq_ok.mp quiet
        rw [runPhases_of_ok unfired ran, runPhases_quiet_of_ok ranQuiet]
        obtain ⟨heard, outcome⟩ := ih (p.add r) (onlooker (.finished r) left)
        refine ⟨?_, outcome⟩
        apply List.cons_prefix_cons.mpr ⟨rfl, ?_⟩
        exact List.cons_prefix_cons.mpr ⟨rfl, heard⟩
      · obtain ⟨e', failed, told⟩ := mapError_eq_error.mp breaks
        obtain ⟨e'', failed', -⟩ := mapError_eq_error.mp other
        rw [runPhases_of_error unfired failed', runPhases_quiet_of_error failed, told]
        exact ⟨List.prefix_rfl, .inr (.inr ⟨rfl, _, rfl⟩)⟩

private theorem runPhases_cancelled (phases : List Phase) (p : Progress) (sig : Signal) {e : Error}
    (ended : (runPhases c onlooker phases p sig).2 = .error e) (stopped : e.isCancelled = true) :
    e = .cancelled := by
  induction phases generalizing p sig with
  | nil => cases ended
  | cons phase phases ih =>
    by_cases fired : sig.isFired = true
    · rw [runPhases, if_pos fired] at ended
      exact (Except.error.inj ended).symm
    · have unfired : sig.isFired = false := Bool.eq_false_iff.mpr fired
      cases ran : runPhase c p phase (onlooker (.started phase) sig.next) with
      | error cause =>
        rw [runPhases_of_error unfired ran] at ended
        obtain rfl := Except.error.inj ended
        exact Error.normalised_eq stopped
      | ok given =>
        rw [runPhases_of_ok unfired ran] at ended
        exact ih _ _ ended

private theorem run_cutOrSame (c : Settings) (onlooker : Event → Signal → Signal) (sig : Signal) :
    (run c onlooker sig).1 <+: (run c (fun _ s => s) .never).1 ∧
      ((run c onlooker sig).2 = .error .cancelled ∨ (run c onlooker sig).2 = outcome c ∨
        outcome c = .error .overflow ∧ ∃ e, (run c onlooker sig).2 = .error e) := by
  obtain ⟨heard, ends⟩ : CutOrSame (runPhases c onlooker c.selected c.initial sig)
      (runPhases c (fun _ s => s) c.selected c.initial .never) :=
    runPhases_cutOrSame c.selected c.initial sig
  refine ⟨heard, ?_⟩
  change ((runPhases c onlooker c.selected c.initial sig).2.map Progress.report = _ ∨
    (runPhases c onlooker c.selected c.initial sig).2.map Progress.report =
      (runPhases c (fun _ s => s) c.selected c.initial .never).2.map Progress.report ∨
    (runPhases c (fun _ s => s) c.selected c.initial .never).2.map Progress.report = _ ∧
      ∃ e, (runPhases c onlooker c.selected c.initial sig).2.map Progress.report = _)
  rcases ends with cut | same | ⟨breaks, e, other⟩
  · rw [cut]
    exact .inl rfl
  · rw [same]
    exact .inr (.inl rfl)
  · rw [breaks, other]
    exact .inr (.inr ⟨rfl, e, rfl⟩)

private theorem run_cancelled {e : Error} (ended : (run c onlooker sig).2 = .error e)
    (stopped : e.isCancelled = true) : e = .cancelled := by
  change (runPhases c onlooker c.selected c.initial sig).2.map Progress.report = _ at ended
  cases phases : (runPhases c onlooker c.selected c.initial sig).2 with
  | ok p =>
    rw [phases] at ended
    cases ended
  | error e' =>
    rw [phases] at ended
    obtain rfl := Except.error.inj ended
    exact runPhases_cancelled _ _ _ phases stopped

end Phases

/-- Whenever a signal fires, it only stops a computation. A search answers as without a signal or is
undecided; a backbone, an anneal, a measurement of search cost and an experiment on an instance
answer as without a signal or are cancelled, and so does a campaign, which tells every stop in one
way and lets an onlooker hear the beginning of what he would hear. The two that look at the signal
late, a pruning and a campaign with one, can also fail before they do where the count of steps
overflows without a signal; they report nothing then. -/
theorem signal_stops_or_spares :
    (∀ limit f sig, (∃ r, (Search.solve limit f).answer sig = .ok r ∧ r.outcome = .inconclusive) ∨
      (Search.solve limit f).answer sig = (Search.solve limit f).answer .never) ∧
    (∀ limit f, (Search.backbone limit f).Spared .cancelled) ∧
    (∀ (σ : Type) [WordSource σ] f a schedule (s : σ),
      (Annealing.annealFrom f a schedule s).Spared .cancelled) ∧
    (∀ n alpha samples limit seed, (Cost.measure n alpha samples limit seed).Spared .cancelled) ∧
    (∀ alpha sizes samples budget seed,
      (Cost.sweepSizes alpha sizes samples budget seed).Spared .cancelled) ∧
    (∀ n alphas samples limit seed,
      (Cost.sweepAlphas n alphas samples limit seed).Spared .cancelled) ∧
    (∀ c, (Cost.scan c).Spared .cancelled) ∧
    (∀ c, (Cost.scanSizes c).Spared .cancelled) ∧
    (∀ c, (Cost.stressTest c).Spared .cancelled) ∧
    (∀ c, (Cost.extrapolate c).Spared .cancelled) ∧
    (∀ c, (Cost.mapZones c).Spared .cancelled) ∧
    (∀ c, (Landscape.energyTail c).Spared .cancelled) ∧
    (∀ c, (Landscape.hysteresis c).Spared .cancelled) ∧
    (∀ c, (Landscape.rigidityTest c).Spared .cancelled) ∧
    (∀ c, (Backbone.predictionTest c).Spared .cancelled) ∧
    (∀ c, (Backbone.universalityTest c).Spared .cancelled) ∧
    (∀ c, (Backbone.sizeTrend c).Spared .cancelled) ∧
    (∀ c, (Incidence.correlateGap c).Spared .cancelled) ∧
    (∀ c sig, (Backbone.prune c).answer sig = .error .cancelled ∨
      (Backbone.prune c).answer sig = (Backbone.prune c).answer .never ∨
      (Backbone.prune c).answer .never = .error (.ofFault .overflow) ∧
        ∃ e, (Backbone.prune c).answer sig = .error e) ∧
    (∀ c onlooker sig, (run c onlooker sig).1 <+: (run c (fun _ s => s) .never).1 ∧
      ((run c onlooker sig).2 = .error .cancelled ∨ (run c onlooker sig).2 = outcome c ∨
        outcome c = .error (.trial (.ofFault .overflow)) ∧
          ∃ e, (run c onlooker sig).2 = .error e) ∧
      ∀ e, (run c onlooker sig).2 = .error e → e.isCancelled = true → e = .cancelled) := by
  refine ⟨Search.solve_answer_eq, fun limit f => (Search.backbone_steady limit f).spared,
    fun σ _ f a schedule s => Annealing.annealFrom_steady.spared, ?_, ?_, ?_, ?_⟩
  · exact fun n alpha samples limit seed => Cost.measure_steady.spared
  · exact fun alpha sizes samples budget seed => Cost.sweepSizes_steady.spared
  · exact fun n alphas samples limit seed => Cost.sweepAlphas_steady.spared
  refine ⟨fun c => (Cost.scan_steady c).spared, fun c => (Cost.scanSizes_steady c).spared,
    fun c => (Cost.stressTest_steady c).spared, fun c => (Cost.extrapolate_steady c).spared,
    fun c => (Cost.mapZones_steady c).spared, ?_⟩
  refine ⟨fun c => Landscape.energyTail_steady.spared, fun c => Landscape.hysteresis_steady.spared,
    fun c => Landscape.rigidityTest_steady.spared, fun c => Backbone.predictionTest_steady.spared,
    fun c => Backbone.universalityTest_steady.spared, fun c => Backbone.sizeTrend_steady.spared,
    fun c => Incidence.correlateGap_steady.spared, ?_⟩
  refine ⟨fun c sig => (Backbone.prune_firm c).answer_eq sig, ?_⟩
  intro c onlooker sig
  obtain ⟨heard, ends⟩ := run_cutOrSame c onlooker sig
  exact ⟨heard, ends, fun e ended stopped => run_cancelled ended stopped⟩

end SatLab.Campaign
