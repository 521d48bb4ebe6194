import SatLab.Campaign.Worker
import SatLab.Proofs.Campaign.Run
/-!
A job on its way through its phases. Its results are those of the selected phases up to where it
stands, and it ends behind the last phase, in front of a phase once its stop signal has fired, or
in a phase that fails.
-/

set_option autoImplicit false
set_option relaxedAutoImplicit false

namespace SatLab.Campaign

/-- How a campaign can end in front of the given phases. -/
inductive Settings.Concludes (c : Settings) (fired : Prop) (p : Progress) :
    List Phase → Except Error CampaignReport → Prop
  | completed : c.Concludes fired p [] (.ok p.report)
  | stopped {phase : Phase} {rest : List Phase} (fires : fired) :
      c.Concludes fired p (phase :: rest) (.error .cancelled)
  | failed {phase : Phase} {rest : List Phase} {seen : Signal} {e : Error}
      (quiet : fired ∨ seen = .never) (failed : runPhase c p phase seen = .error e) :
      c.Concludes fired p (phase :: rest) (.error e.normalised)

/-- A job has the given results and phases left, and has seen its stop signal fire only if `fired`
holds. -/
structure Job.Underway (job : Job) (fired : Prop) (rs : List PhaseReport) (rest : List Phase)
    (p : Progress) : Prop where
  placed : job.settings.selected = rs.map PhaseReport.phase ++ rest
  given : job.settings.Gives fired job.settings.initial rs
  known : p = job.settings.initial.after rs

/-- A job is over, with the given results of its phases and the given result of its own. -/
def Job.Over (job : Job) (fired : Prop) (rs : List PhaseReport)
    (result : Except Error CampaignReport) : Prop :=
  ∃ rest p, job.Underway fired rs rest p ∧ job.settings.Concludes fired p rest result

section Later

variable {c : Settings} {job : Job} {fired fired' : Prop} {rs : List PhaseReport}
  {rest : List Phase} {p : Progress} {result : Except Error CampaignReport}

theorem Settings.Gives.mono (later : fired → fired') (given : c.Gives fired p rs) :
    c.Gives fired' p rs := by
  induction rs generalizing p with
  | nil => trivial
  | cons r rs ih =>
    obtain ⟨⟨seen, sig, quiet, ran⟩, given⟩ := given
    exact ⟨⟨seen, sig, quiet.imp_left later, ran⟩, ih given⟩

theorem Settings.Concludes.mono (later : fired → fired') (ends : c.Concludes fired p rest result) :
    c.Concludes fired' p rest result := by
  cases ends with
  | completed => exact .completed
  | stopped fires => exact .stopped (later fires)
  | failed quiet failed => exact .failed (quiet.imp_left later) failed

theorem Job.Underway.mono (later : fired → fired') (underway : job.Underway fired rs rest p) :
    job.Underway fired' rs rest p :=
  { underway with given := underway.given.mono later }

theorem Job.Over.mono (later : fired → fired') (ended : job.Over fired rs result) :
    job.Over fired' rs result := by
  obtain ⟨rest, p, underway, ends⟩ := ended
  exact ⟨rest, p, underway.mono later, ends.mono later⟩

end Later

theorem Job.Over.outcome_eq {job : Job} {rs : List PhaseReport}
    {result : Except Error CampaignReport} (concluded : job.Over False rs result) :
    result = outcome job.settings := by
  obtain ⟨rest, p, ⟨placed, given, rfl⟩, ends⟩ := concluded
  have goesOn : (runPhases job.settings (fun _ s => s) (rs.map PhaseReport.phase ++ rest)
      job.settings.initial .never).2 = _ := runPhases_quiet_append given
  rw [← placed] at goesOn
  change result = (runPhases job.settings (fun _ s => s) job.settings.selected
    job.settings.initial .never).2.map Progress.report
  rw [goesOn]
  cases ends with
  | completed => rfl
  | stopped fires => exact fires.elim
  | failed quiet failed =>
    obtain rfl := quiet.resolve_left not_false
    rw [runPhases_quiet_of_error failed]
    rfl

section Progress

variable {job : Job} {fired : Prop} {rs : List PhaseReport} {phase : Phase} {rest : List Phase}
  {p : Progress} {seen sig : Signal}

theorem Job.underway_start (job : Job) (fired : Prop) :
    job.Underway fired [] job.settings.selected job.settings.initial :=
  ⟨rfl, trivial, rfl⟩

theorem Job.Underway.next {r : PhaseReport} (underway : job.Underway fired rs (phase :: rest) p)
    (quiet : fired ∨ seen = .never) (ran : runPhase job.settings p phase seen = .ok (r, sig)) :
    job.Underway fired (rs ++ [r]) rest (p.add r) := by
  obtain ⟨placed, given, rfl⟩ := underway
  cases phase_of_runPhase ran
  refine ⟨?_, Settings.gives_append.mpr ⟨given, ⟨seen, sig, quiet, ran⟩, trivial⟩, ?_⟩
  · rw [placed, List.map_append, List.append_assoc]
    rfl
  · rw [Progress.after_append]
    rfl

end Progress

end SatLab.Campaign
