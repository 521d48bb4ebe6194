import SatLab.Proofs.Search.Refinement
/-!
Second models. When the check of a variable finds one, both values occur of every variable on which
it differs from the first model. Those that were not classified are freed on the spot; one whose own
search was cut short before stays undetermined.
-/

set_option autoImplicit false
set_option relaxedAutoImplicit false

namespace SatLab.Search

namespace Survey

/-- The survey as it is when the turn of a variable comes, with a second model that the check of the
variable finds. -/
inductive Reveals (limit : Nat) (f : Formula) (m other : Assignment) (v : Nat) (s : Survey) : Prop
  | check {first found : Result} {degrees : Array Nat} {b : Bool}
      (solved : solve limit f .never = .ok (first, .never))
      (outcome : first.outcome = .satisfiable m) (counted : f.degrees = .ok degrees)
      (surveyed : (List.range' 1 (v - 1)).foldlM (classify limit f m) (start degrees first.steps)
        .never = .ok (s, .never))
      (positive : 0 < v) (reached : v ≤ lowHalf f.numVars)
      (pending : s.statuses[v - 1]? = some none) (value : m.value v = .ok b)
      (searched : solve limit (f.force v !b) .never = .ok (found, .never))
      (second : found.outcome = .satisfiable other) : Reveals limit f m other v s

section Turns

variable {f : Formula} {m other : Assignment} {s s' : Survey} {v w limit : Nat} {vs : List Nat}
  (wellFormed : f.WellFormed) (model : f.IsModel m)

theorem Turn.undetermined (sound : s.Sound f) (positive : 0 < v) (nonzero : 0 < w)
    (turn : Turn limit f m v s s') (entry : s'.statuses[w - 1]? = some (some .undetermined)) :
    w = v ∨ s.statuses[w - 1]? = some (some .undetermined) := by
  cases turn with
  | skip => exact .inr entry
  | @check b found pending value searched =>
    have place : v ≤ s.statuses.size := sound.size ▸ sound.bound pending positive
    rcases known_of_record positive place nonzero entry with ⟨same, -⟩ | stood | ⟨-, reveals⟩
    · exact .inl same
    · exact .inr stood
    · cases outcome : found.outcome <;> simp [outcome, revealed] at reveals

include wellFormed model in
theorem Turns.undetermined (sound : s.Sound f) (positive : ∀ v ∈ vs, 0 < v) (nonzero : 0 < w)
    (turns : Turns limit f m vs s s') (entry : s'.statuses[w - 1]? = some (some .undetermined)) :
    w ∈ vs ∨ s.statuses[w - 1]? = some (some .undetermined) := by
  induction turns with
  | nil => exact .inr entry
  | @cons v vs _ _ _ turn rest ih =>
    have here := positive v List.mem_cons_self
    have later := fun w member => positive w (List.mem_cons_of_mem v member)
    rcases ih (sound.of_turn wellFormed model here turn) later entry with behind | before
    · exact .inl (List.mem_cons_of_mem v behind)
    · rcases turn.undetermined sound here nonzero before with rfl | stood
      · exact .inl List.mem_cons_self
      · exact .inr stood

include model in
/-- A variable on which a second model differs from the first one is not frozen, so that it is free
after the check unless it was undetermined before. -/
private theorem entry_of_difference {b c : Bool} {found : Result} (sound : s.Sound f)
    (modelled : f.IsModel other) (positive : 0 < v) (pending : s.statuses[v - 1]? = some none)
    (second : found.outcome = .satisfiable other) (value : m.value w = .ok c)
    (differs : other.value w = .ok (!c)) :
    (s.record m v b found).statuses[w - 1]? =
      if s.statuses[w - 1]? = some (some .undetermined) then some (some .undetermined)
      else some (some .free) := by
  obtain ⟨nonzero, bound⟩ := Assignment.range_of_value value
  have inside : v ≤ s.statuses.size := sound.size ▸ sound.bound pending positive
  have place : w - 1 < s.statuses.size := by
    rw [sound.size, ← model.1]
    omega
  rw [entry_record positive inside nonzero]
  by_cases same : w = v
  · subst same
    simp [pending, second, status]
  · rw [if_neg same, Array.getElem?_eq_getElem place, Option.map_some]
    cases known : s.statuses[w - 1] with
    | none =>
      have here := (Assignment.value_eq_ok_iff.mp value).2
      have there := (Assignment.value_eq_ok_iff.mp differs).2
      simp [second, revealed, here, there]
    | some status =>
      have entry : s.statuses[w - 1]? = some (some status) :=
        known ▸ Array.getElem?_eq_getElem place
      cases status with
      | free | undetermined => simp
      | frozen d =>
        have frozen : Status.Holds f w (.frozen d) := sound.holds w _ nonzero entry
        have first := value.symm.trans (frozen m model)
        have again := differs.symm.trans (frozen other modelled)
        cases first
        simp at again

private theorem foldlM_split {n : Nat} (positive : 0 < v) (inside : v ≤ n)
    (surveyed : (List.range' 1 (v - 1)).foldlM (classify limit f m) s .never = .ok (s', .never)) :
    (List.range' 1 n).foldlM (classify limit f m) s .never =
      (v :: List.range' (v + 1) (n - v)).foldlM (classify limit f m) s' .never := by
  have first : 1 + (v - 1) = v := by omega
  have total : v - 1 + (n - v + 1) = n := by omega
  have cut := List.range'_append_1 (s := 1) (m := v - 1) (n := n - v + 1)
  rw [first, total, List.range'_succ] at cut
  rw [← cut, List.foldlM_append, Task.bind_of_ok surveyed]

end Turns

section Middle

variable {f : Formula} (wellFormed : f.WellFormed) {limit v : Nat} {m : Assignment} {s : Survey}
  {first : Result} {degrees : Array Nat} (model : f.IsModel m) (counted : f.degrees = .ok degrees)
  (surveyed : (List.range' 1 (v - 1)).foldlM (classify limit f m) (start degrees first.steps)
    .never = .ok (s, .never))

include wellFormed model counted surveyed

/-- The survey as it is when the turn of a variable comes: what is undetermined then had its turn
before. -/
theorem before_turn (inside : v ≤ f.numVars) : s.Sound f ∧ s.Searched limit f m ∧
    ∀ w, 0 < w → s.statuses[w - 1]? = some (some .undetermined) → w < v := by
  obtain ⟨initial, decided⟩ := sound_start wellFormed model counted first.steps
  have range : ∀ w ∈ List.range' 1 (v - 1), 0 < w ∧ w ≤ f.numVars := by
    intro w member
    have bounds := List.mem_range'_1.mp member
    omega
  have positive := fun w member => (range w member).1
  have turns := turns_of_foldlM wellFormed model initial range surveyed
  obtain ⟨sound, known⟩ := turns.preserve wellFormed model initial positive
    (fun w t t' sound nonzero turn before => turn.searched sound nonzero before)
    (searched_start wellFormed counted)
  refine ⟨sound, known, fun w nonzero undetermined => ?_⟩
  rcases turns.undetermined wellFormed model initial positive nonzero undetermined with
    member | stood
  · have bounds := List.mem_range'_1.mp member
    omega
  · exact absurd stood (decided w nonzero)

private theorem kept_after_check {b : Bool} {found : Result} {last : Survey} {w : Nat}
    {status : Status} (positive : 0 < v) (pending : s.statuses[v - 1]? = some none)
    (value : m.value v = .ok b)
    (searched : solve limit (f.force v !b) .never = .ok (found, .never))
    (reached : v ≤ lowHalf f.numVars)
    (folded : (List.range' 1 (lowHalf f.numVars)).foldlM (classify limit f m)
      (start degrees first.steps) .never = .ok (last, .never))
    (nonzero : 0 < w) (entry : (s.record m v b found).statuses[w - 1]? = some (some status)) :
    last.statuses[w - 1]? = some (some status) := by
  have inside : v ≤ f.numVars := model.1 ▸ (Assignment.range_of_value value).2
  obtain ⟨sound, -, -⟩ := before_turn wellFormed model counted surveyed inside
  have named := sound.named wellFormed positive pending
  have next := sound.of_turn wellFormed model positive (.check pending value searched)
  have range : ∀ w ∈ List.range' (v + 1) (lowHalf f.numVars - v), 0 < w ∧ w ≤ f.numVars := by
    intro w member
    have bounds := List.mem_range'_1.mp member
    have fewer := lowHalf_le f.numVars
    omega
  rw [foldlM_split positive reached surveyed, List.foldlM_cons, Task.bind_apply,
    classify_of_search wellFormed positive inside named pending value searched] at folded
  split at folded
  · have turns := turns_of_foldlM wellFormed model next range folded
    exact (turns.preserve wellFormed model next (fun w member => (range w member).1)
      (fun w t t' sound positive turn => turn.kept sound positive nonzero) entry).2
  · cases folded

end Middle

end Survey

section Reports

variable {f : Formula} {limit v : Nat} {m other : Assignment} {s : Survey} {r : BackboneReport}
  {sig : Signal}

private theorem survey_of_backbone {first : Result} {degrees : Array Nat}
    (wellFormed : f.WellFormed) (solved : solve limit f .never = .ok (first, .never))
    (outcome : first.outcome = .satisfiable m) (counted : f.degrees = .ok degrees)
    (reported : backbone limit f .never = .ok (r, sig)) :
    ∃ last, r = last.report m ∧
      (List.range' 1 (lowHalf f.numVars)).foldlM (Survey.classify limit f m)
        (.start degrees first.steps) .never = .ok (last, .never) := by
  have model := isModel_of_solve wellFormed solved outcome
  obtain ⟨initial, -⟩ := Survey.sound_start wellFormed model counted first.steps
  rw [backbone_of_solve solved counted, outcome] at reported
  rcases Survey.foldlM_classify wellFormed model limit initial
    (fun v member => range_of_mem_range' member) with ⟨failed, -⟩ | ⟨last, folded, -⟩
  · simp only [failed, error_bind] at reported
    cases reported
  · simp only [folded, ok_bind] at reported
    cases reported
    exact ⟨last, rfl, folded⟩

/-- A second model that a survey finds. It is a model, and the variable that was checked has its
other value in it. Every variable on which it differs from the first model is reported as free, save
one that was checked before with a search that was cut short: that one stays undetermined. -/
theorem second_model_frees (wellFormed : f.WellFormed)
    (reported : backbone limit f .never = .ok (r, sig)) (reveals : s.Reveals limit f m other v) :
    r.model = some m ∧ f.IsModel m ∧ f.IsModel other ∧
      (∃ b, m.value v = .ok b ∧ other.value v = .ok !b) ∧
      ∀ w c, m.value w = .ok c → other.value w = .ok (!c) →
        (s.statuses[w - 1]? ≠ some (some .undetermined) → r.statuses[w - 1]? = some .free) ∧
        (s.statuses[w - 1]? = some (some .undetermined) →
          r.statuses[w - 1]? = some .undetermined ∧ w < v ∧
            Survey.Found limit f m w .undetermined) := by
  rcases reveals with @⟨first, found, degrees, b, solved, outcome, counted, surveyed, positive,
    reached, pending, value, searched, second⟩
  have model := isModel_of_solve wellFormed solved outcome
  have inside : v ≤ f.numVars := model.1 ▸ (Assignment.range_of_value value).2
  obtain ⟨sound, known, earlier⟩ :=
    Survey.before_turn wellFormed model counted surveyed inside
  have named := sound.named wellFormed positive pending
  obtain ⟨modelled, differs⟩ :=
    Survey.isModel_of_check wellFormed named positive inside searched second
  obtain ⟨last, rfl, folded⟩ := survey_of_backbone wellFormed solved outcome counted reported
  refine ⟨rfl, model, modelled, ⟨b, value, differs⟩, ?_⟩
  intro w c here there
  obtain ⟨nonzero, -⟩ := Assignment.range_of_value here
  -- the entry after the check is that of the report, since the turns to come keep it
  have entry := Survey.entry_of_difference (b := b) model sound modelled positive pending second
    here there
  have kept {status : Status}
      (entry : (s.record m v b found).statuses[w - 1]? = some (some status)) :
      (last.report m).statuses[w - 1]? = some status :=
    Survey.report_of_entry (Survey.kept_after_check wellFormed model counted surveyed positive
      pending value searched reached folded nonzero entry)
  constructor
  · intro determined
    rw [if_neg determined] at entry
    exact kept entry
  · intro undetermined
    rw [if_pos undetermined] at entry
    exact ⟨kept entry, earlier w nonzero undetermined, known w _ nonzero undetermined⟩

end Reports

/-- A unit clause, and a clause that needs one of two further variables. -/
def needy : Formula := ⟨3, [⟨[⟨1⟩]⟩, ⟨[⟨2⟩, ⟨3⟩]⟩]⟩

/-- With three steps for each search the check of the second variable is cut short. That of the
third one finds a model in which the second variable has its other value. -/
private theorem needy_reveals :
    Survey.Reveals 3 needy ⟨#[true, true, false]⟩ ⟨#[true, false, true]⟩ 3
      ⟨#[some (.frozen true), some .undetermined, none], 8⟩ := by
  have solved : solve 3 needy .never = .ok (⟨.satisfiable ⟨#[true, true, false]⟩, 3, 0⟩, .never) :=
    ok_of_toOption (by decide +kernel)
  have counted : needy.degrees = .ok #[1, 1, 1] := ok_of_toOption (by decide)
  have searched : solve 3 (needy.force 3 true) .never =
      .ok (⟨.satisfiable ⟨#[true, false, true]⟩, 3, 0⟩, .never) :=
    ok_of_toOption (by decide +kernel)
  exact .check solved rfl counted (ok_of_toOption (by decide +kernel)) (by decide) (by decide) rfl
    rfl searched rfl

private theorem backbone_needy : backbone 3 needy .never = .ok (⟨some true,
    some ⟨#[true, true, false]⟩, [.frozen true, .undetermined, .free], 11⟩, .never) :=
  ok_of_toOption (by decide +kernel)

/-- The second model differs on the second and the third variable, and only the third one, whose
check has found it, is freed: the second one was classified before. -/
theorem needy_freed : needy.WellFormed ∧ ∃ r, backbone 3 needy .never = .ok (r, .never) ∧
    r.statuses[1]? = some .undetermined ∧ r.statuses[2]? = some .free := by
  have wellFormed : needy.WellFormed := by decide
  obtain ⟨-, -, -, -, frees⟩ := second_model_frees wellFormed backbone_needy needy_reveals
  exact ⟨wellFormed, _, backbone_needy, ((frees 2 true rfl rfl).2 rfl).1,
    (frees 3 false rfl rfl).1 (by decide)⟩

/-- Not every variable on which a second model differs from the first one is reported as free. -/
theorem needy_difference_not_freed : needy.WellFormed ∧
    (∃ s, Survey.Reveals 3 needy ⟨#[true, true, false]⟩ ⟨#[true, false, true]⟩ 3 s) ∧
    Assignment.value ⟨#[true, true, false]⟩ 2 = .ok true ∧
    Assignment.value ⟨#[true, false, true]⟩ 2 = .ok false ∧
    ∃ r, backbone 3 needy .never = .ok (r, .never) ∧ r.statuses[1]? ≠ some .free :=
  ⟨by decide, ⟨_, needy_reveals⟩, rfl, rfl, _, backbone_needy, by decide⟩

end SatLab.Search
