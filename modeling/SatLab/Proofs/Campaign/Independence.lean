import SatLab.Proofs.Campaign.Run
/-!
Phases do not disturb each other. A phase reads two things that other phases have found out: the
clause ratio of the largest search cost and whether there was a trap. Each of the two comes from
one phase, so that the report of a phase depends on no more of the selection than these.
-/

set_option autoImplicit false
set_option relaxedAutoImplicit false

namespace SatLab.Campaign

/-- Whether a phase measures search cost. Such a phase sets its own clause ratios. -/
def Phase.measuresCost : Phase → Bool
  | alphaScan | sizeScan | stress | extrapolation | zones => true
  | _ => false

theorem index_scan_lt {phase : Phase} (reads : phase.measuresCost = false) :
    Phase.alphaScan.index < phase.index := by
  have places : ∀ q ∈ Phase.all, q.measuresCost = false →
      Phase.alphaScan.index < q.index := by decide
  exact places phase (Phase.mem_all phase) reads

private theorem runPhase_congr {c : Settings} {p q : Progress} {phase : Phase}
    (ratio : phase.measuresCost = false → p.peakAlpha = q.peakAlpha)
    (trap : phase = .hysteresis → p.trapDetected = q.trapDetected) :
    runPhase c p phase = runPhase c q phase := by
  cases phase with
  | alphaScan | sizeScan | stress | extrapolation | zones => rfl
  | hysteresis => rw [runPhase, runPhase, ratio rfl, trap rfl]
  | energyTail | rigidity | pruning | prediction | universality | sizeTrend | gapCorrelation =>
    rw [runPhase, runPhase, ratio rfl]

/-- A part of what is known that comes from one phase: the result of that phase decides it, and no
other result changes it. -/
structure WrittenBy {β : Type} (writer : Phase) (field : Progress → β) : Prop where
  decided : ∀ (p q : Progress) (r : PhaseReport), r.phase = writer →
    field (p.add r) = field (q.add r)
  kept : ∀ (p : Progress) (r : PhaseReport), r.phase ≠ writer → field (p.add r) = field p

theorem peakAlpha_written : WrittenBy .alphaScan Progress.peakAlpha where
  decided p q r scan := by cases r <;> first | rfl | cases scan
  kept p r other := by cases r <;> first | rfl | exact absurd rfl other

theorem trapDetected_written : WrittenBy .energyTail Progress.trapDetected where
  decided p q r tail := by cases r <;> first | rfl | cases tail
  kept p r other := by cases r <;> first | rfl | exact absurd rfl other

theorem WrittenBy.after_eq {β : Type} {writer : Phase} {field : Progress → β}
    (written : WrittenBy writer field) {p : Progress} {rs : List PhaseReport}
    (none : writer ∉ rs.map PhaseReport.phase) : field (p.after rs) = field p := by
  induction rs generalizing p with
  | nil => rfl
  | cons r rs ih =>
    rw [List.map_cons, List.mem_cons, not_or] at none
    rw [Progress.after_cons, ih none.2, written.kept p r (Ne.symm none.1)]

/-- With the given selection, a phase gives the result `r` after the results `rs`, and no signal
fires. -/
structure Reported (c : Settings) (selection : List Phase) (rs : List PhaseReport)
    (r : PhaseReport) : Prop where
  placed : ∃ rest, (c.withPhases selection).selected = rs.map PhaseReport.phase ++ r.phase :: rest
  given : c.Gives False c.initial rs
  ran : runPhase c (c.initial.after rs) r.phase .never = .ok (r, .never)

section Reported

variable {c : Settings} {selection selection' : List Phase} {rs rs' : List PhaseReport}
  {r r' : PhaseReport}

private theorem gives_withPhases {fired : Prop} {p : Progress} :
    (c.withPhases selection).Gives fired p rs ↔ c.Gives fired p rs := by
  induction rs generalizing p with
  | nil => exact Iff.rfl
  | cons r rs ih => exact and_congr Iff.rfl ih

private theorem finished_run_iff :
    .finished r ∈ (run (c.withPhases selection) (fun _ s => s) .never).1 ↔
      ∃ rs, Reported c selection rs r := by
  constructor
  · intro finished
    obtain ⟨rs, rest, placed, given, ran⟩ := finished_iff.mp finished
    exact ⟨rs, ⟨rest, placed⟩, gives_withPhases.mp given, ran⟩
  · rintro ⟨rs, ⟨rest, placed⟩, given, ran⟩
    change .finished r ∈ (runPhases (c.withPhases selection) _ _ _ .never).1
    exact finished_iff.mpr ⟨rs, rest, placed, gives_withPhases.mpr given, ran⟩

theorem Reported.earlier (reported : Reported c selection rs r) {q : Phase} (member : q ∈ selection)
    (lower : q.index < r.phase.index) :
    ∃ front first back, rs = front ++ first :: back ∧ first.phase = q ∧
      Reported c selection front first ∧ q ∉ back.map PhaseReport.phase := by
  obtain ⟨rest, placed⟩ := reported.placed
  obtain ⟨first, listed, rfl⟩ :=
    List.mem_map.mp ((mem_before_iff placed).mpr ⟨member, lower⟩)
  obtain ⟨front, back, rfl⟩ := List.append_of_mem listed
  rw [List.map_append, List.map_cons, List.append_assoc] at placed
  obtain ⟨before, ⟨seen, sig, quiet, ran⟩, -⟩ := Settings.gives_append.mp reported.given
  obtain rfl : seen = .never := quiet.resolve_left id
  cases signal_of_runPhase ran
  refine ⟨front, first, back, rfl, rfl, ⟨⟨_, placed⟩, before, ran⟩, fun again => ?_⟩
  -- a second result of the phase would stand behind the first, at the same place of the order
  have ordered := pairwise_selected (c.withPhases selection)
  rw [placed, List.pairwise_append, List.cons_append, List.pairwise_cons] at ordered
  exact lt_irrefl _ (ordered.2.1.1 _ (List.mem_append_left _ again))

private theorem Reported.notMem (reported : Reported c selection rs r) {q : Phase}
    (absent : q ∉ selection) : q ∉ rs.map PhaseReport.phase := by
  obtain ⟨rest, placed⟩ := reported.placed
  exact fun member => absent ((mem_before_iff placed).mp member).1

private theorem Reported.eq_of_reads (reported : Reported c selection rs r)
    (reported' : Reported c selection' rs' r') (same : r.phase = r'.phase)
    (ratio : r.phase.measuresCost = false →
      (c.initial.after rs).peakAlpha = (c.initial.after rs').peakAlpha)
    (trap : r.phase = .hysteresis →
      (c.initial.after rs).trapDetected = (c.initial.after rs').trapDetected) : r = r' := by
  have ran := reported.ran
  rw [runPhase_congr ratio trap, same] at ran
  exact congrArg Prod.fst (Except.ok.inj (ran.symm.trans reported'.ran))

/-- Two runs know the same of what comes from one phase when that phase is in both selections or in
neither and, where it is in both, reports the same. -/
private theorem Reported.eq_of_written {β : Type} {writer : Phase} {field : Progress → β}
    (written : WrittenBy writer field) (reported : Reported c selection rs r)
    (reported' : Reported c selection' rs' r') (same : r.phase = r'.phase)
    (lower : writer.index < r.phase.index) (both : writer ∈ selection ↔ writer ∈ selection')
    (agree : ∀ {front front' first first'}, Reported c selection front first →
      Reported c selection' front' first' → first.phase = writer → first'.phase = writer →
      first = first') :
    field (c.initial.after rs) = field (c.initial.after rs') := by
  by_cases selected : writer ∈ selection
  · obtain ⟨front, first, back, rfl, kind, wrote, once⟩ := reported.earlier selected lower
    obtain ⟨front', first', back', rfl, kind', wrote', once'⟩ :=
      reported'.earlier (both.mp selected) (same ▸ lower)
    obtain rfl := agree wrote wrote' kind kind'
    rw [Progress.after_append, Progress.after_cons, written.after_eq once, Progress.after_append,
      Progress.after_cons, written.after_eq once']
    exact written.decided _ _ _ kind
  · rw [written.after_eq (reported.notMem selected),
      written.after_eq (reported'.notMem fun selected' => selected (both.mpr selected'))]

private theorem Reported.peakAlpha_eq (reported : Reported c selection rs r)
    (reported' : Reported c selection' rs' r') (same : r.phase = r'.phase)
    (reads : r.phase.measuresCost = false)
    (scans : .alphaScan ∈ selection ↔ .alphaScan ∈ selection') :
    (c.initial.after rs).peakAlpha = (c.initial.after rs').peakAlpha := by
  refine reported.eq_of_written peakAlpha_written reported' same (index_scan_lt reads) scans
    fun first first' kind kind' => ?_
  apply first.eq_of_reads first' (kind.trans kind'.symm) <;> rw [kind] <;> nofun

private theorem Reported.trapDetected_eq (reported : Reported c selection rs r)
    (reported' : Reported c selection' rs' r') (same : r.phase = r'.phase)
    (reads : r.phase = .hysteresis) (scans : .alphaScan ∈ selection ↔ .alphaScan ∈ selection')
    (tails : .energyTail ∈ selection ↔ .energyTail ∈ selection') :
    (c.initial.after rs).trapDetected = (c.initial.after rs').trapDetected := by
  have lower : Phase.energyTail.index < r.phase.index := by
    rw [reads]
    decide
  refine reported.eq_of_written trapDetected_written reported' same lower tails
    fun first first' kind kind' => ?_
  have alike := kind.trans kind'.symm
  refine first.eq_of_reads first' alike (fun free => ?_) fun wrong => ?_
  · exact first.peakAlpha_eq first' alike free scans
  · cases kind.symm.trans wrong

end Reported

private theorem runPhases_withPhases (c : Settings) (selection : List Phase)
    (onlooker : Event → Signal → Signal) (phases : List Phase) (p : Progress) (sig : Signal) :
    runPhases (c.withPhases selection) onlooker phases p sig =
      runPhases c onlooker phases p sig := by
  induction phases generalizing p sig with
  | nil => rfl
  | cons phase phases ih =>
    have one : runPhase (c.withPhases selection) p phase = runPhase c p phase := rfl
    simp only [runPhases, one, ih]

/-- Two campaigns that differ in their selections alone, and that nobody stops, agree on the report
of every phase that ends in both: always if the phase measures search cost, else if the scan that
finds the clause ratio is in both selections or in neither, and for hysteresis if the same holds of
the energy tail as well. Selections of the same phases make the same campaign, whatever the signal
and whoever looks on. -/
theorem run_independent (c : Settings) (selection selection' : List Phase) :
    (∀ r r', .finished r ∈ (run (c.withPhases selection) (fun _ s => s) .never).1 →
      .finished r' ∈ (run (c.withPhases selection') (fun _ s => s) .never).1 →
      r.phase = r'.phase →
      (r.phase.measuresCost = false → (.alphaScan ∈ selection ↔ .alphaScan ∈ selection')) →
      (r.phase = .hysteresis → (.energyTail ∈ selection ↔ .energyTail ∈ selection')) → r = r') ∧
    ((∀ q, q ∈ selection ↔ q ∈ selection') → ∀ onlooker sig,
      run (c.withPhases selection) onlooker sig = run (c.withPhases selection') onlooker sig) := by
  constructor
  · intro r r' finished finished' same scans tails
    obtain ⟨rs, reported⟩ := finished_run_iff.mp finished
    obtain ⟨rs', reported'⟩ := finished_run_iff.mp finished'
    refine reported.eq_of_reads reported' same (fun free => ?_) fun deep => ?_
    · exact reported.peakAlpha_eq reported' same free (scans free)
    · exact reported.trapDetected_eq reported' same deep (scans (deep ▸ rfl)) (tails deep)
  · intro members onlooker sig
    have selected : (c.withPhases selection).selected = (c.withPhases selection').selected := by
      apply List.filter_congr
      intro q _
      rw [Bool.eq_iff_iff]
      simpa [Settings.runs, Settings.withPhases] using members q
    rw [run, run, selected, runPhases_withPhases, runPhases_withPhases]
    rfl

/-- The usual pruning reports the same whether or not the rigidity is examined in front of it. -/
theorem usual_pruning_independent : ∃ r, r.phase = .pruning ∧
    .finished r ∈ (run (({} : Settings).withPhases [.pruning]) (fun _ s => s) .never).1 ∧
    .finished r ∈
      (run (({} : Settings).withPhases [.pruning, .rigidity]) (fun _ s => s) .never).1 := by
  have permits : ({} : Settings).Permits ({} : Settings).initial :=
    ⟨by decide, by decide, by decide, by decide⟩
  obtain ⟨first, kind₁, ran₁⟩ := runPhase_rigidity_returns permits (by rfl) (by rfl)
  obtain ⟨r, kind, ran⟩ := runPhase_pruning_returns permits (by rfl) (by rfl) (by decide)
  have ratio : (({} : Settings).initial.after [first]).peakAlpha =
      ({} : Settings).initial.peakAlpha := peakAlpha_written.after_eq (by simp [kind₁])
  have permits' : ({} : Settings).Permits (({} : Settings).initial.after [first]) :=
    { permits with finite := ratio ▸ permits.finite, nonnegative := ratio ▸ permits.nonnegative }
  obtain ⟨r', kind', ran'⟩ :=
    runPhase_pruning_returns permits' (by rfl) (by rfl) (by decide)
  have reported : Reported {} [.pruning] [] r := ⟨⟨[], by rw [kind]; rfl⟩, trivial, ran⟩
  have reported' : Reported {} [.pruning, .rigidity] [first] r' :=
    ⟨⟨[], by rw [List.map_cons, kind₁, kind']; rfl⟩, ⟨⟨_, _, .inr rfl, ran₁⟩, trivial⟩, ran'⟩
  have finished := finished_run_iff.mpr ⟨_, reported⟩
  have finished' := finished_run_iff.mpr ⟨_, reported'⟩
  obtain rfl : r = r' := (run_independent {} [.pruning] [.pruning, .rigidity]).1 r r' finished
    finished' (kind.trans kind'.symm) (fun _ => by decide) fun _ => by decide
  exact ⟨r, kind, finished, finished'⟩

end SatLab.Campaign
