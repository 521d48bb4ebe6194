import SatLab.Proofs.Search.Backbone
/-!
Reports on the backbone under a higher step limit. A search that ended under the lower limit ends
the same under the higher one, so that a report which leaves nothing open does not change. Where a
search was cut short the two surveys go different ways, but both tell the truth about a variable
that one of them found frozen.
-/

set_option autoImplicit false
set_option relaxedAutoImplicit false

namespace SatLab.Search

section Limits

variable {f : Formula} {lower upper : Nat}

private theorem solve_of_le {r : Result} {sig : Signal} (le : lower ≤ upper)
    (wellFormed : f.WellFormed)
    (solved : solve lower f .never = .ok (r, sig)) (decided : r.outcome ≠ .inconclusive) :
    solve upper f .never = .ok (r, .never) := by
  have within : r.steps ≤ lower := (steps_le_of_solve wellFormed solved).trans (min_le_left _ _)
  have settled := (State.run_of_decided solved decided upper).1
  simp only [State.start, Nat.zero_add] at settled
  exact settled (within.trans le)

private theorem stepBound_le (le : lower ≤ upper) : stepBound lower f ≤ stepBound upper f :=
  min_le_min_right _ le

end Limits

namespace Survey

/-- What the search for a model with the other value of a variable found, by the status given. A
free variable may have got its status from a search for another one. -/
inductive Found (limit : Nat) (f : Formula) (m : Assignment) (v : Nat) : Status → Prop
  | refuted {b : Bool} {found : Result} (value : m.value v = .ok b)
      (searched : solve limit (f.force v !b) .never = .ok (found, .never))
      (outcome : found.outcome = .unsatisfiable) : Found limit f m v (.frozen b)
  | cut {b : Bool} {found : Result} (value : m.value v = .ok b)
      (searched : solve limit (f.force v !b) .never = .ok (found, .never))
      (outcome : found.outcome = .inconclusive) : Found limit f m v .undetermined
  | free : Found limit f m v .free

section Turns

variable {f : Formula} {m : Assignment} {s s' : Survey} {v limit lower upper : Nat}

/-- Every status of a survey says what a search found. -/
def Searched (limit : Nat) (f : Formula) (m : Assignment) (s : Survey) : Prop :=
  ∀ w status, 0 < w → s.statuses[w - 1]? = some (some status) → Found limit f m w status

private theorem found_of_search {b : Bool} {found : Result} (value : m.value v = .ok b)
    (searched : solve limit (f.force v !b) .never = .ok (found, .never)) :
    Found limit f m v (status b found.outcome) := by
  cases outcome : found.outcome with
  | unsatisfiable => exact .refuted value searched outcome
  | inconclusive => exact .cut value searched outcome
  | satisfiable other => exact .free

theorem Turn.searched (sound : s.Sound f) (positive : 0 < v) (turn : Turn limit f m v s s')
    (before : s.Searched limit f m) : s'.Searched limit f m := by
  cases turn with
  | skip => exact before
  | @check b found pending value searched =>
    intro w known nonzero entry
    have inside : v ≤ s.statuses.size := sound.size ▸ sound.bound pending positive
    rcases known_of_record positive inside nonzero entry with
      ⟨rfl, rfl⟩ | stood | ⟨-, reveals⟩
    · exact found_of_search value searched
    · exact before w known nonzero stood
    · cases outcome : found.outcome with
      | unsatisfiable | inconclusive => simp [outcome, revealed] at reveals
      | satisfiable other =>
        simp only [outcome, revealed, Option.ite_none_left_eq_some, Option.some.injEq] at reveals
        obtain ⟨-, rfl⟩ := reveals
        exact .free

theorem searched_start {degrees : Array Nat} {steps : Nat} (wellFormed : f.WellFormed)
    (counted : f.degrees = .ok degrees) : (start degrees steps).Searched limit f m := by
  intro w known nonzero entry
  have given := (start_entry wellFormed counted nonzero entry).2
  split at given
  · cases given
  · cases given
    exact .free

private theorem classify_of_le (le : lower ≤ upper) (wellFormed : f.WellFormed)
    (model : f.IsModel m) (sound : s.Sound f) (positive : 0 < v) (inside : v ≤ f.numVars)
    (classified : classify lower f m s v .never = .ok (s', .never))
    (answered : s'.statuses[v - 1]? ≠ some (some .undetermined)) :
    classify upper f m s v .never = .ok (s', .never) := by
  rcases classify_cases wellFormed model sound lower positive inside with
    ⟨failed, -⟩ | ⟨s'', same, turn⟩
  · rw [classified] at failed
    cases failed
  · rw [classified] at same
    cases same
    cases turn with
    | skip known => exact classify_of_known known
    | @check b found pending value searched =>
      have place : v ≤ s.statuses.size := sound.size ▸ inside
      have decided : found.outcome ≠ .inconclusive := by
        intro cut
        rw [entry_record positive place positive, if_pos rfl, cut] at answered
        exact answered rfl
      have named := sound.named wellFormed positive pending
      have forced : (f.force v !b).WellFormed := wellFormed.force positive inside named
      have again := solve_of_le le forced searched decided
      rw [classify_of_search wellFormed positive inside named pending value searched] at classified
      rwa [classify_of_search wellFormed positive inside named pending value again]

private theorem foldlM_of_le {vs : List Nat} (le : lower ≤ upper) (wellFormed : f.WellFormed)
    (model : f.IsModel m) (sound : s.Sound f) (range : ∀ v ∈ vs, 0 < v ∧ v ≤ f.numVars)
    (folded : vs.foldlM (classify lower f m) s .never = .ok (s', .never)) (decided : s'.Decided) :
    vs.foldlM (classify upper f m) s .never = .ok (s', .never) := by
  induction vs generalizing s with
  | nil => exact folded
  | cons v vs ih =>
    obtain ⟨positive, inside⟩ := range v List.mem_cons_self
    have later := fun w member => range w (List.mem_cons_of_mem v member)
    rw [List.foldlM_cons] at folded ⊢
    obtain ⟨next, sig, classified, rest⟩ := Task.bind_eq_ok.mp folded
    rcases classify_cases wellFormed model sound lower positive inside with
      ⟨failed, -⟩ | ⟨next', same, turn⟩
    · cases classified.symm.trans failed
    · cases classified.symm.trans same
      have sound' := sound.of_turn wellFormed model positive turn
      -- A status that is given is never taken back, so this check was not cut short.
      have answered : next.statuses[v - 1]? ≠ some (some .undetermined) := by
        intro undetermined
        have turns := turns_of_foldlM wellFormed model sound' later rest
        have kept := turns.preserve wellFormed model sound'
          (fun w member => (later w member).1)
          (fun w t t' sound nonzero turn => turn.kept sound nonzero positive) undetermined
        exact decided v positive kept.2
      have again := classify_of_le le wellFormed model sound positive inside classified answered
      rw [Task.bind_of_ok again]
      exact ih sound' later rest

end Turns

end Survey

section Reports

variable {f : Formula} {lower upper limit : Nat} {r r' : BackboneReport} {sig : Signal}
  (wellFormed : f.WellFormed) (small : f.numVars ≤ maxVar)

include wellFormed small in
theorem Reports.found (reports : Reports limit f r) {m : Assignment} (first : r.model = some m)
    {v : Nat} {status : Status} (positive : 0 < v) (entry : r.statuses[v - 1]? = some status) :
    Survey.Found limit f m v status := by
  cases reports with
  | refuted | unsettled => cases first
  | @surveyed found m' degrees s searched outcome counted turns =>
    obtain rfl : m' = m := Option.some.inj first
    have model := isModel_of_solve wellFormed searched outcome
    obtain ⟨sound, -⟩ := Survey.sound_start wellFormed model counted found.steps
    obtain ⟨-, -, entries⟩ := Survey.complete_of_turns wellFormed small model counted turns
    have kept := turns.preserve wellFormed model sound
      (fun w member => (range_of_mem_range' member).1)
      (fun w t t' sound nonzero turn before => turn.searched sound nonzero before)
      (Survey.searched_start wellFormed counted)
    exact kept.2 v status positive ((entries v status positive).mp entry)

include wellFormed in
private theorem Reports.answer_of_le (le : lower ≤ upper) (reports : Reports lower f r)
    (reports' : Reports upper f r') (answered : r.satisfiable ≠ none) :
    r'.satisfiable = r.satisfiable ∧ r'.model = r.model := by
  cases reports with
  | unsettled => exact absurd rfl answered
  | refuted searched outcome | surveyed searched outcome =>
    have again := solve_of_le le wellFormed searched (by simp [outcome])
    cases reports' with
    | refuted searched' outcome' | unsettled searched' outcome' | surveyed searched' outcome' =>
      cases again.symm.trans searched'
      cases outcome.symm.trans outcome' <;> exact ⟨rfl, rfl⟩

include wellFormed small in
private theorem Reports.frozen_of_le (le : lower ≤ upper) (reports : Reports lower f r)
    (reports' : Reports upper f r') : r.frozen ⊆ r'.frozen := by
  rintro ⟨v, b⟩ member
  obtain ⟨positive, entry⟩ := BackboneReport.mem_frozen.mp member
  have found : r.satisfiable = some true := by
    cases reports with
    | refuted | unsettled => cases entry
    | surveyed => rfl
  obtain ⟨⟨m, first, model⟩, length, holds⟩ := reports.statuses_hold wellFormed small found
  obtain ⟨same, model_eq⟩ := reports.answer_of_le wellFormed le reports' (by simp [found])
  have first' : r'.model = some m := model_eq.trans first
  obtain ⟨-, length', holds'⟩ := reports'.statuses_hold wellFormed small (same.trans found)
  have frozen : Status.Holds f v (.frozen b) := holds v _ positive entry
  have place : v - 1 < r'.statuses.length := by
    rw [length', ← length]
    exact (List.getElem?_eq_some_iff.mp entry).1
  have entry' := List.getElem?_eq_getElem place
  refine BackboneReport.mem_frozen.mpr ⟨positive, entry'.trans (congrArg some ?_)⟩
  cases known : r'.statuses[v - 1] with
  | frozen c =>
    have frozen' : Status.Holds f v (.frozen c) := holds' v _ positive (known ▸ entry')
    have values : Except.ok b = Except.ok c := (frozen m model).symm.trans (frozen' m model)
    cases values
    rfl
  | free =>
    have free : Status.Holds f v .free := holds' v _ positive (known ▸ entry')
    obtain ⟨a, modelled, opposite⟩ := free (!b)
    have values := opposite.symm.trans (frozen a modelled)
    simp at values
  | undetermined =>
    -- The search that froze the variable ends the same under the higher limit.
    have lower_found := reports.found wellFormed small first positive entry
    have upper_found := reports'.found wellFormed small first' positive (known ▸ entry')
    cases lower_found with
    | refuted value searched outcome =>
      cases upper_found with
      | cut value' searched' outcome' =>
        cases value.symm.trans value'
        have inside : v ≤ f.numVars := model.1 ▸ (Assignment.range_of_value value).2
        have forced := wellFormed.force (b := !b) positive inside (inside.trans small)
        have again := solve_of_le le forced searched (by simp [outcome])
        cases again.symm.trans searched'
        cases outcome.symm.trans outcome'

include wellFormed in
theorem backbone_of_le (le : lower ≤ upper) (reported : backbone lower f .never = .ok (r, sig))
    (answered : r.satisfiable ≠ none) (determined : .undetermined ∉ r.statuses) :
    backbone upper f .never = .ok (r, .never) := by
  obtain ⟨degrees, counted, -⟩ := Formula.degrees_of_wellFormed wellFormed
  cases searched : solve lower f .never with
  | error e => cases reported.symm.trans (backbone_of_failure searched)
  | ok p =>
    obtain ⟨found, sig'⟩ := p
    obtain ⟨rfl, -⟩ := ends_of_solve wellFormed searched
    rw [backbone_of_solve searched counted] at reported
    have again := solve_of_le le wellFormed searched
    cases outcome : found.outcome with
    | inconclusive =>
      rw [outcome] at reported
      cases reported
      exact absurd rfl answered
    | unsatisfiable =>
      rw [outcome] at reported again
      rw [backbone_of_solve (again Outcome.noConfusion) counted, outcome]
      cases reported
      rfl
    | satisfiable m =>
      rw [outcome] at reported again
      rw [backbone_of_solve (again Outcome.noConfusion) counted, outcome]
      have model := isModel_of_solve wellFormed searched outcome
      obtain ⟨sound, -⟩ := Survey.sound_start wellFormed model counted found.steps
      have range := fun (v : Nat) (member : v ∈ List.range' 1 (lowHalf f.numVars)) =>
        range_of_mem_range' member
      rcases Survey.foldlM_classify wellFormed model lower sound range with
        ⟨failed, -⟩ | ⟨s, folded, -⟩
      · simp only [failed, error_bind] at reported
        cases reported
      · simp only [folded, ok_bind] at reported
        cases reported
        have decided : s.Decided := by
          intro w positive entry
          exact determined (List.mem_of_getElem? (Survey.report_of_entry entry))
        have folded' := Survey.foldlM_of_le le wellFormed model sound range folded decided
        simp only [folded', ok_bind]

end Reports

/-- Reports on the backbone under two step limits. Both are returned unless the step counts under
the higher limit can fill the word, and there is no other failure. A report in which the first
search is answered and no variable is undetermined is returned as it is under every higher limit. In
any case an answer to the first search stays, with the model, and what is frozen stays frozen. -/
theorem backbone_refines {f : Formula} (wellFormed : f.WellFormed) (small : f.numVars ≤ maxVar)
    {lower upper : Nat} (le : lower ≤ upper) :
    ((f.numVars + 1) * stepBound upper f + 1 < wordBound →
        (∃ r, backbone lower f .never = .ok (r, .never)) ∧
          ∃ r', backbone upper f .never = .ok (r', .never)) ∧
      (∀ e, backbone upper f .never = .error e → e = .fault .overflow) ∧
      ∀ r sig, backbone lower f .never = .ok (r, sig) →
        (r.satisfiable ≠ none → .undetermined ∉ r.statuses →
          backbone upper f .never = .ok (r, .never)) ∧
        ∀ r' sig', backbone upper f .never = .ok (r', sig') →
          (∀ b, r.satisfiable = some b → r'.satisfiable = some b ∧ r'.model = r.model) ∧
            r.frozen ⊆ r'.frozen := by
  have lower_ran := backbone_reports wellFormed lower
  have upper_ran := backbone_reports wellFormed upper
  refine ⟨fun word => ?_, fun e failed => ?_, fun r sig reported => ?_⟩
  · have fewer := Nat.mul_le_mul_left (f.numVars + 1) (stepBound_le (f := f) le)
    rcases lower_ran with ⟨-, full⟩ | ⟨r, returned, -⟩
    · omega
    · rcases upper_ran with ⟨-, full⟩ | ⟨r', returned', -⟩
      · omega
      · exact ⟨⟨r, returned⟩, r', returned'⟩
  · rcases upper_ran with ⟨failed', -⟩ | ⟨r', returned', -⟩
    · cases failed.symm.trans failed'
      rfl
    · cases failed.symm.trans returned'
  · refine ⟨backbone_of_le wellFormed le reported, fun r' sig' reported' => ?_⟩
    rcases lower_ran with ⟨failed, -⟩ | ⟨_, returned, reports⟩
    · cases reported.symm.trans failed
    · rcases upper_ran with ⟨failed', -⟩ | ⟨_, returned', reports'⟩
      · cases reported'.symm.trans failed'
      · cases reported.symm.trans returned
        cases reported'.symm.trans returned'
        refine ⟨fun b answered => ?_, reports.frozen_of_le wellFormed small le reports'⟩
        have answer := reports.answer_of_le wellFormed le reports' (by simp [answered])
        exact ⟨answer.1.trans answered, answer.2⟩

/-- What three steps for each search tell of the two clauses over three variables. -/
def cornerReport : BackboneReport :=
  ⟨some true, some ⟨#[true, false, false]⟩, [.frozen true, .free, .free], 8⟩

private theorem backbone_corner : backbone 3 corner .never = .ok (cornerReport, .never) :=
  ok_of_toOption (by decide +kernel)

theorem corner_refined : corner.WellFormed ∧ corner.numVars ≤ maxVar ∧ 3 ≤ noLimit ∧
    backbone noLimit corner .never = .ok (cornerReport, .never) := by
  have wellFormed : corner.WellFormed := by decide
  have small : corner.numVars ≤ maxVar := by decide
  have le : 3 ≤ noLimit := by decide
  obtain ⟨-, -, refines⟩ := backbone_refines wellFormed small le
  refine ⟨wellFormed, small, le, (refines _ _ backbone_corner).1 ?_ ?_⟩
  · exact Option.some_ne_none true
  · decide

end SatLab.Search
