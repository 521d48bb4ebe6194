import Mathlib.Data.List.Basic
import SatLab.Campaign.Run
import SatLab.Proofs.Backbone.Pruning
import SatLab.Proofs.Cost.Stopped
import SatLab.Proofs.Trial.Report
/-!
What the phases of a campaign leave behind. A phase answers with a result of its own kind, and a
signal that never fires is still quiet after it. What is known after some phases depends on their
results alone.
-/

set_option autoImplicit false
set_option relaxedAutoImplicit false

namespace SatLab.Campaign

open SatLab.Task

section Wrapped

variable {α : Type} {wrap : α → PhaseReport} {r : PhaseReport} {sig sig' : Signal}

theorem costPhase_eq_ok {t : Task Cost.Error α} :
    costPhase wrap t sig = .ok (r, sig') ↔ ∃ a, t sig = .ok (a, sig') ∧ r = wrap a := by
  rw [costPhase, mapError_eq_ok, map_eq_ok]

theorem trialPhase_eq_ok {t : Task Trial.Error α} :
    trialPhase wrap t sig = .ok (r, sig') ↔ ∃ a, t sig = .ok (a, sig') ∧ r = wrap a := by
  rw [trialPhase, mapError_eq_ok, map_eq_ok]

private theorem costPhase_steady {t : Task Cost.Error α} (steady : t.Steady (.core .cancelled)) :
    ((costPhase wrap t).mapError Error.normalised).Steady .cancelled :=
  ((steady.map wrap).mapError Error.cost).mapError Error.normalised

private theorem trialPhase_steady {t : Task Trial.Error α} (steady : t.Steady (.core .cancelled)) :
    ((trialPhase wrap t).mapError Error.normalised).Steady .cancelled :=
  ((steady.map wrap).mapError Error.trial).mapError Error.normalised

end Wrapped

section RunPhase

variable {c : Settings} {p : Progress} {phase : Phase} {r : PhaseReport} {sig sig' : Signal}

theorem phase_of_runPhase (ran : runPhase c p phase sig = .ok (r, sig')) : r.phase = phase := by
  cases phase with
  | alphaScan | sizeScan | stress | extrapolation | zones =>
    obtain ⟨a, -, rfl⟩ := costPhase_eq_ok.mp ran
    rfl
  | energyTail | hysteresis | rigidity | pruning | prediction | universality | sizeTrend
  | gapCorrelation =>
    obtain ⟨a, -, rfl⟩ := trialPhase_eq_ok.mp ran
    rfl

theorem runPhase_steady (other : phase ≠ .pruning) :
    ((runPhase c p phase).mapError Error.normalised).Steady .cancelled := by
  cases phase with
  | alphaScan => exact costPhase_steady (Cost.scan_steady _)
  | sizeScan => exact costPhase_steady (Cost.scanSizes_steady _)
  | stress => exact costPhase_steady (Cost.stressTest_steady _)
  | extrapolation => exact costPhase_steady (Cost.extrapolate_steady _)
  | zones => exact costPhase_steady (Cost.mapZones_steady _)
  | energyTail => exact trialPhase_steady Landscape.energyTail_steady
  | hysteresis => exact trialPhase_steady Landscape.hysteresis_steady
  | rigidity => exact trialPhase_steady Landscape.rigidityTest_steady
  | pruning => exact absurd rfl other
  | prediction => exact trialPhase_steady Backbone.predictionTest_steady
  | universality => exact trialPhase_steady Backbone.universalityTest_steady
  | sizeTrend => exact trialPhase_steady Backbone.sizeTrend_steady
  | gapCorrelation => exact trialPhase_steady Incidence.correlateGap_steady

theorem signal_of_runPhase (ran : runPhase c p phase .never = .ok (r, sig)) : sig = .never := by
  by_cases other : phase = .pruning
  · subst other
    obtain ⟨a, pruned, -⟩ := trialPhase_eq_ok.mp ran
    exact (Backbone.prune_eq_ok_iff.mp pruned).1
  · exact (runPhase_steady other).signal_eq (mapError_eq_ok.mpr ran)

end RunPhase

def Progress.after (p : Progress) (rs : List PhaseReport) : Progress := rs.foldl Progress.add p

@[simp] theorem Progress.after_nil (p : Progress) : p.after [] = p := rfl

@[simp] theorem Progress.after_cons (p : Progress) (r : PhaseReport) (rs : List PhaseReport) :
    p.after (r :: rs) = (p.add r).after rs := rfl

theorem Progress.after_append (p : Progress) (rs rs' : List PhaseReport) :
    p.after (rs ++ rs') = (p.after rs).after rs' :=
  List.foldl_append

/-- Results that phases give one after the other, each under a signal that may have fired only if
`fired` holds. -/
def Settings.Gives (c : Settings) (fired : Prop) : Progress → List PhaseReport → Prop
  | _, [] => True
  | p, r :: rs => (∃ seen sig, (fired ∨ seen = .never) ∧
      runPhase c p r.phase seen = .ok (r, sig)) ∧ c.Gives fired (p.add r) rs

theorem Settings.gives_append {c : Settings} {fired : Prop} {p : Progress}
    {rs rs' : List PhaseReport} :
    c.Gives fired p (rs ++ rs') ↔ c.Gives fired p rs ∧ c.Gives fired (p.after rs) rs' := by
  induction rs generalizing p with
  | nil => exact iff_of_eq (true_and _).symm
  | cons r rs ih => rw [List.cons_append, Gives, Gives, ih, and_assoc, Progress.after_cons]

section Onlooker

variable {c : Settings} {onlooker : Event → Signal → Signal} {p : Progress} {phase : Phase}
  {phases : List Phase} {sig : Signal}

theorem runPhases_of_error {e : Error} (unfired : sig.isFired = false)
    (failed : runPhase c p phase (onlooker (.started phase) sig.next) = .error e) :
    runPhases c onlooker (phase :: phases) p sig = ([.started phase], .error e.normalised) := by
  rw [runPhases, unfired, if_neg Bool.false_ne_true, failed]

theorem runPhases_of_ok {r : PhaseReport} {left : Signal} (unfired : sig.isFired = false)
    (ran : runPhase c p phase (onlooker (.started phase) sig.next) = .ok (r, left)) :
    runPhases c onlooker (phase :: phases) p sig =
      (.started phase :: .finished r ::
        (runPhases c onlooker phases (p.add r) (onlooker (.finished r) left)).1,
        (runPhases c onlooker phases (p.add r) (onlooker (.finished r) left)).2) := by
  rw [runPhases, unfired, if_neg Bool.false_ne_true, ran]

end Onlooker

section Quiet

variable {c : Settings} {p : Progress} {r : PhaseReport} {phase : Phase} {phases : List Phase}

theorem runPhases_quiet_of_error {e : Error} (failed : runPhase c p phase .never = .error e) :
    runPhases c (fun _ s => s) (phase :: phases) p .never =
      ([.started phase], .error e.normalised) :=
  runPhases_of_error rfl failed

theorem runPhases_quiet_of_ok (ran : runPhase c p phase .never = .ok (r, .never)) :
    runPhases c (fun _ s => s) (phase :: phases) p .never =
      (.started phase :: .finished r :: (runPhases c (fun _ s => s) phases (p.add r) .never).1,
        (runPhases c (fun _ s => s) phases (p.add r) .never).2) :=
  runPhases_of_ok rfl ran

theorem runPhases_quiet_append {rs : List PhaseReport} {rest : List Phase}
    (given : c.Gives False p rs) :
    (runPhases c (fun _ s => s) (rs.map PhaseReport.phase ++ rest) p .never).2 =
      (runPhases c (fun _ s => s) rest (p.after rs) .never).2 := by
  induction rs generalizing p with
  | nil => rfl
  | cons r rs ih =>
    obtain ⟨⟨seen, sig, quiet, ran⟩, given⟩ := given
    obtain rfl : seen = .never := quiet.resolve_left id
    obtain rfl := signal_of_runPhase ran
    rw [List.map_cons, List.cons_append, runPhases_quiet_of_ok ran]
    exact ih given

/-- What a run that nobody stops reports is given by its phase, after all phases in front of it
have given theirs. -/
theorem finished_iff :
    .finished r ∈ (runPhases c (fun _ s => s) phases p .never).1 ↔
      ∃ rs rest, phases = rs.map PhaseReport.phase ++ r.phase :: rest ∧ c.Gives False p rs ∧
        runPhase c (p.after rs) r.phase .never = .ok (r, .never) := by
  constructor
  · intro finished
    induction phases generalizing p with
    | nil => cases finished
    | cons phase phases ih =>
      cases ran : runPhase c p phase .never with
      | error e => simp [runPhases_quiet_of_error ran] at finished
      | ok given =>
        obtain ⟨first, sig⟩ := given
        cases signal_of_runPhase ran
        cases phase_of_runPhase ran
        rw [runPhases_quiet_of_ok ran, List.mem_cons, List.mem_cons] at finished
        rcases finished with differs | same | later
        · cases differs
        · cases same
          exact ⟨[], phases, rfl, trivial, ran⟩
        · obtain ⟨rs, rest, rfl, given, reported⟩ := ih later
          exact ⟨first :: rs, rest, rfl, ⟨⟨_, _, .inr rfl, ran⟩, given⟩, reported⟩
  · rintro ⟨rs, rest, rfl, given, ran⟩
    induction rs generalizing p with
    | nil =>
      rw [List.map_nil, List.nil_append, runPhases_quiet_of_ok (p := p) ran]
      exact List.mem_cons_of_mem _ List.mem_cons_self
    | cons first rs ih =>
      obtain ⟨⟨seen, sig, quiet, first_ran⟩, given⟩ := given
      obtain rfl : seen = .never := quiet.resolve_left id
      cases signal_of_runPhase first_ran
      rw [List.map_cons, List.cons_append, runPhases_quiet_of_ok first_ran]
      exact List.mem_cons_of_mem _ (List.mem_cons_of_mem _ (ih given ran))

end Quiet

section Order

variable {c : Settings} {phase q : Phase} {before rest : List Phase}

theorem mem_selected : q ∈ c.selected ↔ q ∈ c.phases := by
  simp [Settings.selected, Settings.runs, Phase.mem_all]

theorem pairwise_selected (c : Settings) :
    c.selected.Pairwise fun p q => p.index < q.index := by
  have ordered : Phase.all.Pairwise fun p q => p.index < q.index := by decide
  exact ordered.filter c.runs

theorem mem_before_iff (placed : c.selected = before ++ phase :: rest) :
    q ∈ before ↔ q ∈ c.phases ∧ q.index < phase.index := by
  have ordered := pairwise_selected c
  rw [placed, List.pairwise_append, List.pairwise_cons] at ordered
  obtain ⟨-, ⟨later, -⟩, across⟩ := ordered
  rw [← mem_selected, placed, List.mem_append, List.mem_cons]
  constructor
  · intro member
    exact ⟨.inl member, across q member phase List.mem_cons_self⟩
  · rintro ⟨member | rfl | member, lower⟩
    · exact member
    · exact absurd lower (lt_irrefl _)
    · exact absurd (lower.trans (later q member)) (lt_irrefl _)

end Order

section Returns

variable {c : Settings} {p : Progress}

/-- The settings allow experiments on instances at the clause ratio that is known. -/
structure Settings.Permits (c : Settings) (p : Progress) : Prop where
  enough : 3 ≤ c.instanceSize
  small : c.instanceSize ≤ maxVar
  finite : p.peakAlpha.isFinite = true
  nonnegative : ¬ p.peakAlpha < 0.0

theorem runPhase_rigidity_returns (permits : c.Permits p)
    (valid : c.rigidity.anneal.validate = .ok ())
    (permitted : Trial.checkFrozenFraction c.rigidity.frozenFraction = .ok ()) :
    ∃ r, r.phase = .rigidity ∧ runPhase c p r.phase .never = .ok (r, .never) := by
  obtain ⟨a, ran⟩ := Landscape.rigidityTest_returns (c := { c.rigidity with
      n := c.instanceSize, alpha := p.peakAlpha, seed := c.phaseSeed .rigidity })
    permits.enough permits.small permits.finite permits.nonnegative valid permitted
  exact ⟨.rigidity a, rfl, trialPhase_eq_ok.mpr ⟨a, ran, rfl⟩⟩

theorem runPhase_pruning_returns (permits : c.Permits p)
    (valid : c.pruning.anneal.validate = .ok ())
    (permitted : Trial.checkFrozenFraction c.pruning.frozenFraction = .ok ())
    (word : c.pruning.stepLimit + 1 < wordBound) :
    ∃ r, r.phase = .pruning ∧ runPhase c p r.phase .never = .ok (r, .never) := by
  obtain ⟨a, ran⟩ := Backbone.prune_returns (c := { c.pruning with
      n := c.instanceSize, alpha := p.peakAlpha, seed := c.phaseSeed .pruning })
    permits.enough permits.small permits.finite permits.nonnegative valid permitted word
  exact ⟨.pruning a, rfl, trialPhase_eq_ok.mpr ⟨a, ran, rfl⟩⟩

end Returns

end SatLab.Campaign
