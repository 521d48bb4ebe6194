import SatLab.Proofs.Campaign.Independence
import SatLab.Proofs.Campaign.Quiet
import SatLab.Proofs.Trial.Report
/-!
The course of a campaign. The selected phases begin and end one after the other in their order; what
the scan and the energy tail find out reaches every later phase and the report, and the campaign
ends with the first phase that fails.
-/

set_option autoImplicit false
set_option relaxedAutoImplicit false

namespace SatLab.Campaign

/-- What an onlooker hears of phases that end with the given results. -/
def heard (rs : List PhaseReport) : List Event :=
  rs.flatMap fun r => [.started r.phase, .finished r]

/-- A result is about instances of the given size and clause ratio, as far as it tells. A
measurement of search cost has sizes and clause ratios of its own. -/
def PhaseReport.Carries (n : Nat) (alpha : Float) : PhaseReport → Prop
  | alphaScan _ | sizeScan _ | stress _ | extrapolation _ | zones _ => True
  | energyTail r => r.n = n ∧ r.alpha = alpha
  | hysteresis r => r.n = n ∧ r.alpha = alpha
  | rigidity r => r.totalVars = n
  | pruning r => r.n = n ∧ r.alpha = alpha
  | prediction r => r.n = n ∧ r.alpha = alpha
  | universality r => r.n = n ∧ r.alpha = alpha
  | sizeTrend r => r.alpha = alpha
  | gapCorrelation r => r.n = n ∧ r.alpha = alpha

/-- The report of a campaign that ran to its end. -/
structure Settings.Answers (c : Settings) (R : CampaignReport) : Prop where
  order : R.reports.map PhaseReport.phase = c.selected
  scanned : Phase.alphaScan ∈ c.phases →
    ∃ s, PhaseReport.alphaScan s ∈ R.reports ∧ R.peakAlpha = s.peakAlpha
  unscanned : Phase.alphaScan ∉ c.phases → R.peakAlpha = c.fallbackAlpha
  trapped : Phase.energyTail ∈ c.phases →
    ∃ t, PhaseReport.energyTail t ∈ R.reports ∧ R.trapDetected = t.diagnosis.isTrap
  untrapped : Phase.energyTail ∉ c.phases → R.trapDetected = false
  carries : ∀ r ∈ R.reports, r.Carries c.instanceSize R.peakAlpha
  deep : R.trapDetected = true → ∀ h, PhaseReport.hysteresis h ∈ R.reports → h.isDeepScan = true

/-- The ways in which a campaign can end, with what an onlooker has heard by then. The results are
those that the phases give one after the other. That a stop is told instead of the error of a phase,
or between two phases, needs a signal that may have fired. -/
inductive Settings.Ends (c : Settings) (fired : Prop) :
    List Event → Except Error CampaignReport → Prop
  | finished {R : CampaignReport} (given : c.Gives fired c.initial R.reports)
      (answers : c.Answers R) : c.Ends fired (heard R.reports) (.ok R)
  | failed {rs : List PhaseReport} {phase : Phase} {rest : List Phase} {seen : Signal}
      {e told : Error} (given : c.Gives fired c.initial rs)
      (placed : c.selected = rs.map PhaseReport.phase ++ phase :: rest)
      (quiet : fired ∨ seen = .never)
      (broke : runPhase c (c.initial.after rs) phase seen = .error e)
      (same : told = e ∨ fired ∧ told = .cancelled) :
      c.Ends fired (heard rs ++ [.started phase]) (.error told)
  | stopped {rs : List PhaseReport} {phase : Phase} {rest : List Phase}
      (given : c.Gives fired c.initial rs)
      (placed : c.selected = rs.map PhaseReport.phase ++ phase :: rest) (may : fired) :
      c.Ends fired (heard rs) (.error .cancelled)

section Phases

variable {c : Settings} {p : Progress} {r : PhaseReport} {sig sig' : Signal}

private theorem carries_of_measuresCost {n : Nat} {alpha : Float}
    (measures : r.phase.measuresCost = true) : r.Carries n alpha := by
  cases r with
  | alphaScan | sizeScan | stress | extrapolation | zones => trivial
  | energyTail | hysteresis | rigidity | pruning | prediction | universality | sizeTrend
  | gapCorrelation => cases measures

private theorem carries_of_trialPhase {α : Type} {wrap : α → PhaseReport} {t : Task Trial.Error α}
    {n : Nat} {alpha : Float} (names : t.Ensures fun a => (wrap a).Carries n alpha)
    (ran : trialPhase wrap t sig = .ok (r, sig')) : r.Carries n alpha := by
  obtain ⟨a, ended, rfl⟩ := trialPhase_eq_ok.mp ran
  exact names _ _ ended

private theorem carries_of_runPhase {phase : Phase} (ran : runPhase c p phase sig = .ok (r, sig')) :
    r.Carries c.instanceSize p.peakAlpha := by
  cases phase with
  | alphaScan | sizeScan | stress | extrapolation | zones =>
    obtain ⟨a, -, rfl⟩ := costPhase_eq_ok.mp ran
    trivial
  | energyTail => exact carries_of_trialPhase (Landscape.energyTail_names _) ran
  | hysteresis => exact carries_of_trialPhase (Landscape.hysteresis_names _) ran
  | rigidity => exact carries_of_trialPhase (Landscape.rigidityTest_counts _) ran
  | pruning => exact carries_of_trialPhase (Backbone.prune_names _) ran
  | prediction => exact carries_of_trialPhase (Backbone.predictionTest_names _) ran
  | universality => exact carries_of_trialPhase (Backbone.universalityTest_names _) ran
  | sizeTrend => exact carries_of_trialPhase (Backbone.sizeTrend_names _) ran
  | gapCorrelation => exact carries_of_trialPhase (Incidence.correlateGap_names _) ran

private theorem isDeepScan_hysteresisAfter (c : Settings) :
    Landscape.isDeepScan (c.hysteresisAfter true).slowRate = true := by
  unfold Settings.hysteresisAfter
  split
  · show Landscape.isDeepScan Landscape.deepRate = true
    decide
  · rename_i deep
    simpa using deep

private theorem deep_of_runPhase {h : Landscape.HysteresisResult}
    (ran : runPhase c p .hysteresis sig = .ok (.hysteresis h, sig'))
    (trap : p.trapDetected = true) : h.isDeepScan = true := by
  obtain ⟨a, ended, same⟩ := trialPhase_eq_ok.mp ran
  obtain rfl := PhaseReport.hysteresis.inj same
  rw [Landscape.hysteresis_deep _ _ _ ended, trap]
  exact isDeepScan_hysteresisAfter c

end Phases

section Threading

variable {c : Settings} {fired : Prop} {p q : Progress} {rs : List PhaseReport} {r : PhaseReport}

private theorem done_after : (p.after rs).done.reverse = p.done.reverse ++ rs := by
  induction rs generalizing p with
  | nil => exact (List.append_nil _).symm
  | cons r rs ih =>
    have added : (p.add r).done.reverse = p.done.reverse ++ [r] := List.reverse_cons
    rw [Progress.after_cons, ih, added, List.append_assoc, List.singleton_append]

private theorem heard_append (rs : List PhaseReport) (r : PhaseReport) :
    heard (rs ++ [r]) = heard rs ++ [.started r.phase, .finished r] := by
  simp [heard]

section Placed

variable {front back : List PhaseReport} {writer : Phase} {β : Type} {field : Progress → β}

private theorem index_lt_of_ordered
    (ordered : ((front ++ r :: back).map PhaseReport.phase).Pairwise fun p q => p.index < q.index)
    {phase : Phase} (member : phase ∈ back.map PhaseReport.phase) :
    r.phase.index < phase.index := by
  rw [List.map_append, List.map_cons, List.pairwise_append, List.pairwise_cons] at ordered
  exact ordered.2.1.1 _ member

private theorem WrittenBy.after_of_mem (written : WrittenBy writer field)
    (ordered : (rs.map PhaseReport.phase).Pairwise fun p q => p.index < q.index)
    (member : r ∈ rs) (kind : r.phase = writer) : field (p.after rs) = field (q.add r) := by
  obtain ⟨front, back, rfl⟩ := List.append_of_mem member
  have once : writer ∉ back.map PhaseReport.phase := by
    intro again
    have later := index_lt_of_ordered ordered again
    rw [kind] at later
    exact lt_irrefl _ later
  rw [Progress.after_append, Progress.after_cons, written.after_eq once]
  exact written.decided _ _ _ kind

private theorem WrittenBy.after_eq_of_lower (written : WrittenBy writer field)
    (ordered : ((front ++ r :: back).map PhaseReport.phase).Pairwise fun p q => p.index < q.index)
    (lower : writer.index < r.phase.index) :
    field (p.after (front ++ r :: back)) = field (p.after front) := by
  have none : writer ∉ (r :: back).map PhaseReport.phase := by
    rw [List.map_cons, List.mem_cons, not_or]
    constructor
    · rintro rfl
      exact lt_irrefl _ lower
    · intro member
      exact lt_asymm lower (index_lt_of_ordered ordered member)
  rw [Progress.after_append, written.after_eq none]

end Placed

private theorem ran_of_mem (given : c.Gives fired c.initial rs)
    (ordered : (rs.map PhaseReport.phase).Pairwise fun p q => p.index < q.index) (member : r ∈ rs) :
    ∃ p seen sig, runPhase c p r.phase seen = .ok (r, sig) ∧
      (r.phase.measuresCost = false → (c.initial.after rs).peakAlpha = p.peakAlpha) ∧
      (r.phase = .hysteresis → (c.initial.after rs).trapDetected = p.trapDetected) := by
  obtain ⟨front, back, rfl⟩ := List.append_of_mem member
  obtain ⟨-, ⟨seen, sig, -, ran⟩, -⟩ := Settings.gives_append.mp given
  refine ⟨c.initial.after front, seen, sig, ran, fun reads => ?_, fun kind => ?_⟩
  · exact peakAlpha_written.after_eq_of_lower ordered (index_scan_lt reads)
  · apply trapDetected_written.after_eq_of_lower ordered
    rw [kind]
    decide

private theorem answers_of_gives (given : c.Gives fired c.initial rs)
    (all : c.selected = rs.map PhaseReport.phase) : c.Answers (c.initial.after rs).report := by
  have ordered := pairwise_selected c
  rw [all] at ordered
  have reports : (c.initial.after rs).report.reports = rs := done_after
  have listed {phase : Phase} (selected : phase ∈ c.phases) : ∃ r ∈ rs, r.phase = phase :=
    List.mem_map.mp (all ▸ mem_selected.mpr selected)
  have unlisted {phase : Phase} (absent : phase ∉ c.phases) :
      phase ∉ rs.map PhaseReport.phase := all ▸ mt mem_selected.mp absent
  constructor
  case order => rw [reports, all]
  case scanned =>
    intro selected
    obtain ⟨r, member, kind⟩ := listed selected
    cases r <;> cases kind
    rename_i s
    rw [reports]
    exact ⟨s, member, peakAlpha_written.after_of_mem (q := c.initial) ordered member rfl⟩
  case unscanned => exact fun absent => peakAlpha_written.after_eq (unlisted absent)
  case trapped =>
    intro selected
    obtain ⟨r, member, kind⟩ := listed selected
    cases r <;> cases kind
    rename_i t
    rw [reports]
    exact ⟨t, member, trapDetected_written.after_of_mem (q := c.initial) ordered member rfl⟩
  case untrapped => exact fun absent => trapDetected_written.after_eq (unlisted absent)
  case carries =>
    intro r member
    rw [reports] at member
    obtain ⟨p, seen, sig, ran, ratio, -⟩ := ran_of_mem given ordered member
    cases measures : r.phase.measuresCost with
    | true => exact carries_of_measuresCost measures
    | false =>
      change r.Carries c.instanceSize (c.initial.after rs).peakAlpha
      rw [ratio measures]
      exact carries_of_runPhase ran
  case deep =>
    intro detected h member
    rw [reports] at member
    obtain ⟨p, seen, sig, ran, -, trap⟩ := ran_of_mem given ordered member
    exact deep_of_runPhase ran ((trap rfl).symm.trans detected)

end Threading

section Run

variable {c : Settings} {onlooker : Event → Signal → Signal} {fired : Prop} {sig : Signal}

/-- Unless a signal may have fired, there is none, and the onlooker does not make one fire. -/
def Silent (fired : Prop) (onlooker : Event → Signal → Signal) (sig : Signal) : Prop :=
  fired ∨ sig = .never ∧ ∀ ev, onlooker ev .never = .never

private theorem Silent.of_isFired (silent : Silent fired onlooker sig)
    (stops : sig.isFired = true) : fired := by
  rcases silent with may | ⟨rfl, -⟩
  · exact may
  · cases stops

theorem Silent.seen (silent : Silent fired onlooker sig) (ev : Event) :
    fired ∨ onlooker ev sig.next = .never := by
  rcases silent with may | ⟨rfl, still⟩
  · exact .inl may
  · exact .inr (still ev)

theorem Silent.behind {p : Progress} {phase : Phase} {r : PhaseReport} {left : Signal}
    (silent : Silent fired onlooker sig) (ev : Event)
    (ran : runPhase c p phase (onlooker (.started phase) sig.next) = .ok (r, left)) :
    Silent fired onlooker (onlooker ev left) := by
  rcases silent with may | ⟨rfl, still⟩
  · exact .inl may
  · rw [Signal.next_never, still] at ran
    rw [signal_of_runPhase ran]
    exact .inr ⟨still ev, still⟩

private theorem normalised_same {p : Progress} {phase : Phase} {seen : Signal} {e : Error}
    (quiet : fired ∨ seen = .never) (broke : runPhase c p phase seen = .error e) :
    e.normalised = e ∨ fired ∧ e.normalised = .cancelled := by
  unfold Error.normalised
  split
  · rename_i cancelled
    rcases quiet with may | rfl
    · exact .inr ⟨may, rfl⟩
    · cases cancelled.symm.trans (runPhase_quiet broke)
  · exact .inl rfl

private theorem runPhases_ends {phases : List Phase} (rs : List PhaseReport)
    (placed : c.selected = rs.map PhaseReport.phase ++ phases)
    (given : c.Gives fired c.initial rs) (silent : Silent fired onlooker sig) :
    c.Ends fired (heard rs ++ (runPhases c onlooker phases (c.initial.after rs) sig).1)
      ((runPhases c onlooker phases (c.initial.after rs) sig).2.map Progress.report) := by
  induction phases generalizing rs sig with
  | nil =>
    rw [List.append_nil] at placed
    have reports : (c.initial.after rs).report.reports = rs := done_after
    rw [runPhases, List.append_nil]
    nth_rewrite 1 [← reports]
    exact .finished (reports.symm ▸ given) (answers_of_gives given placed)
  | cons phase phases ih =>
    by_cases stops : sig.isFired = true
    · rw [runPhases, if_pos stops, List.append_nil]
      exact .stopped given placed (silent.of_isFired stops)
    · have unfired : sig.isFired = false := Bool.eq_false_iff.mpr stops
      have quiet := silent.seen (.started phase)
      cases ran : runPhase c (c.initial.after rs) phase (onlooker (.started phase) sig.next) with
      | error e =>
        rw [runPhases_of_error unfired ran]
        exact .failed given placed quiet ran (normalised_same quiet ran)
      | ok answered =>
        obtain ⟨r, left⟩ := answered
        obtain rfl := phase_of_runPhase ran
        have known : (c.initial.after rs).add r = c.initial.after (rs ++ [r]) :=
          (Progress.after_append _ _ [r]).symm
        have placed' : c.selected = (rs ++ [r]).map PhaseReport.phase ++ phases := by
          rw [placed, List.map_append, List.append_assoc]
          rfl
        have given' : c.Gives fired c.initial (rs ++ [r]) :=
          Settings.gives_append.mpr ⟨given, ⟨_, left, quiet, ran⟩, trivial⟩
        have ended := ih (rs ++ [r]) placed' given' (silent.behind (.finished r) ran)
        rw [heard_append, List.append_assoc] at ended
        rw [runPhases_of_ok unfired ran, known]
        exact ended

/-- Every campaign takes its phases in their order and tells of each that it begins and ends, until
it ends with a report that threads the findings through or with the first phase that fails. Under a
signal it may also be stopped. -/
theorem run_in_order (c : Settings) :
    c.Ends False (run c (fun _ s => s) .never).1 (outcome c) ∧
    ∀ onlooker sig, c.Ends True (run c onlooker sig).1 (run c onlooker sig).2 := by
  constructor
  · exact runPhases_ends [] rfl trivial (.inr ⟨rfl, fun _ => rfl⟩)
  · intro onlooker sig
    exact runPhases_ends [] rfl trivial (.inl trivial)

end Run

end SatLab.Campaign
