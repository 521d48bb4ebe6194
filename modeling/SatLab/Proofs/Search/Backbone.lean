import Mathlib.Data.Set.Card
import SatLab.Proofs.Cnf.Degree
import SatLab.Proofs.Search.Survey
/-!
The backbone that a survey of all variables finds. A report is right at every step limit, and it is
complete when each search has as many steps as a binary tree over the variables that occur has
nodes.
-/

set_option autoImplicit false
set_option relaxedAutoImplicit false

namespace SatLab

/-- The variables of a formula that have one value in all of its models. -/
def Formula.constants (f : Formula) : Set Nat :=
  {v | (1 ≤ v ∧ v ≤ f.numVars) ∧ ∃ b, ∀ a, f.IsModel a → a.value v = .ok b}

namespace Search

namespace BackboneReport

theorem mem_frozen {r : BackboneReport} {v : Nat} {b : Bool} :
    (v, b) ∈ r.frozen ↔ 0 < v ∧ r.statuses[v - 1]? = some (.frozen b) := by
  rw [frozen, List.mem_filterMap]
  constructor
  · rintro ⟨⟨status, w⟩, member, kept⟩
    cases status with
    | frozen c =>
      cases kept
      exact List.mk_mem_zipIdx_iff_le_and_getElem?_sub.mp member
    | free | undetermined => cases kept
  · intro entry
    exact ⟨(.frozen b, v), List.mk_mem_zipIdx_iff_le_and_getElem?_sub.mpr entry, rfl⟩

private theorem pairwise_frozen (r : BackboneReport) : r.frozen.Pairwise fun p q => p.1 < q.1 := by
  apply (pairwise_zipIdx r.statuses 1).filterMap
  rintro ⟨status, v⟩ ⟨status', w⟩ before p kept q kept'
  cases status with
  | frozen b =>
    cases status' with
    | frozen c =>
      cases kept
      cases kept'
      exact before
    | free | undetermined => cases kept'
  | free | undetermined => cases kept

theorem undetermined_eq_nil_iff {r : BackboneReport} :
    r.undetermined = [] ↔ .undetermined ∉ r.statuses := by
  rw [undetermined, List.filterMap_eq_nil_iff]
  constructor
  · intro none member
    obtain ⟨i, entry⟩ := List.mem_iff_getElem?.mp member
    have place := List.mk_mem_zipIdx_iff_le_and_getElem?_sub.mpr ⟨Nat.le_add_left 1 i, entry⟩
    cases none _ place
  · rintro absent ⟨status, v⟩ member
    cases status with
    | frozen | free => rfl
    | undetermined => exact absurd (List.fst_mem_of_mem_zipIdx member) absent

/-- A report that gives a model and leaves no variable open. -/
structure Resolved (r : BackboneReport) : Prop where
  satisfiable : r.satisfiable = some true
  determined : r.undetermined = []

end BackboneReport

namespace Survey

def start (degrees : Array Nat) (steps : Nat) : Survey :=
  ⟨degrees.map fun d => if d = 0 then some .free else none, steps⟩

/-- The report on a formula with the first model, once every variable has had its turn. -/
def report (m : Assignment) (s : Survey) : BackboneReport :=
  ⟨some true, some m, s.statuses.toList.map fun status => status.getD .undetermined, s.totalSteps⟩

theorem report_of_entry {m : Assignment} {s : Survey} {i : Nat} {status : Status}
    (entry : s.statuses[i]? = some (some status)) : (s.report m).statuses[i]? = some status := by
  simp [report, entry]

section Start

variable {f : Formula} {m : Assignment} {degrees : Array Nat}

theorem start_entry (wellFormed : f.WellFormed) (counted : f.degrees = .ok degrees) {v steps : Nat}
    {entry : Option Status} (positive : 0 < v)
    (present : (start degrees steps).statuses[v - 1]? = some entry) :
    v ≤ f.numVars ∧ entry = if v ∈ f.vars then none else some .free := by
  obtain ⟨d, counted', size, entries⟩ := Formula.degrees_of_wellFormed wellFormed
  cases counted.symm.trans counted'
  have place := (Array.getElem?_eq_some_iff.mp present).1
  rw [start, Array.size_map, size] at place
  have inside : v ≤ f.numVars := by omega
  rw [start, Array.getElem?_map, entries v positive inside, Option.map_some,
    Option.some.injEq] at present
  simp only [Formula.countP_var_eq_zero_iff] at present
  refine ⟨inside, present.symm.trans ?_⟩
  by_cases occurs : v ∈ f.vars <;> simp [occurs]

theorem sound_start (wellFormed : f.WellFormed) (model : f.IsModel m)
    (counted : f.degrees = .ok degrees) (steps : Nat) :
    (start degrees steps).Sound f ∧ (start degrees steps).Decided := by
  refine ⟨⟨?_, fun v known positive present => ?_, fun v positive present => ?_⟩,
    fun v positive present => ?_⟩
  · obtain ⟨d, counted', size, -⟩ := Formula.degrees_of_wellFormed wellFormed
    cases counted.symm.trans counted'
    simpa [start] using size
  · obtain ⟨inside, entry⟩ := start_entry wellFormed counted positive present
    by_cases occurs : v ∈ f.vars
    · simp [occurs] at entry
    · simp only [occurs, if_false, Option.some.injEq] at entry
      subst entry
      exact fun b => Formula.exists_isModel_of_fresh model positive inside occurs b
  · by_contra fresh
    have entry := (start_entry wellFormed counted positive present).2
    rw [if_neg fresh] at entry
    cases entry
  · have entry := (start_entry wellFormed counted positive present).2
    split at entry <;> cases entry

end Start

end Survey

section Report

variable {f : Formula} {limit : Nat}

/-- How the report on a formula comes about. -/
inductive Reports (limit : Nat) (f : Formula) : BackboneReport → Prop
  | refuted {found : Result} (searched : solve limit f .never = .ok (found, .never))
      (outcome : found.outcome = .unsatisfiable) :
      Reports limit f ⟨some false, none, [], found.steps⟩
  | unsettled {found : Result} (searched : solve limit f .never = .ok (found, .never))
      (outcome : found.outcome = .inconclusive) : Reports limit f ⟨none, none, [], found.steps⟩
  | surveyed {found : Result} {m : Assignment} {degrees : Array Nat} {s : Survey}
      (searched : solve limit f .never = .ok (found, .never))
      (outcome : found.outcome = .satisfiable m) (counted : f.degrees = .ok degrees)
      (turns : Survey.Turns limit f m (List.range' 1 (lowHalf f.numVars))
        (.start degrees found.steps) s) : Reports limit f (s.report m)

theorem backbone_of_failure {e : Fault} (failed : solve limit f .never = .error e) :
    backbone limit f .never = .error (.fault e) := by
  rw [backbone, Task.bind_apply, Task.check_never, ok_bind, Task.bind_apply,
    Task.mapError_error failed, error_bind]

theorem backbone_of_solve {found : Result} {degrees : Array Nat}
    (searched : solve limit f .never = .ok (found, .never)) (counted : f.degrees = .ok degrees) :
    backbone limit f .never = match found.outcome with
      | .unsatisfiable => .ok (⟨some false, none, [], found.steps⟩, .never)
      | .inconclusive => .ok (⟨none, none, [], found.steps⟩, .never)
      | .satisfiable m =>
        (List.range' 1 (lowHalf f.numVars)).foldlM (Survey.classify limit f m)
          (.start degrees found.steps) .never >>= fun p => .ok (p.1.report m, p.2) := by
  rw [backbone, Task.bind_apply, Task.check_never, ok_bind, Task.bind_apply,
    Task.mapError_ok searched, ok_bind, Task.bind_apply, Task.check_never, ok_bind]
  cases outcome : found.outcome with
  | unsatisfiable | inconclusive => rfl
  | satisfiable m =>
    simp only [counted, Fault.guard, ok_mapError, Task.bind_apply, Task.lift_ok, ok_bind]
    rfl

theorem range_of_mem_range' {v n : Nat} (member : v ∈ List.range' 1 (lowHalf n)) :
    0 < v ∧ v ≤ n := by
  have bounds := List.mem_range'_1.mp member
  have fewer := lowHalf_le n
  omega

theorem backbone_reports (wellFormed : f.WellFormed) (limit : Nat) :
    (backbone limit f .never = .error (.fault .overflow) ∧
        wordBound ≤ (f.numVars + 1) * stepBound limit f + 1) ∨
      ∃ r, backbone limit f .never = .ok (r, .never) ∧ Reports limit f r := by
  have product : (f.numVars + 1) * stepBound limit f =
      f.numVars * stepBound limit f + stepBound limit f := Nat.succ_mul _ _
  cases searched : solve limit f .never with
  | error e =>
    left
    obtain ⟨rfl, full⟩ := overflow_of_solve wellFormed searched
    exact ⟨backbone_of_failure searched, by omega⟩
  | ok p =>
    obtain ⟨found, sig⟩ := p
    obtain ⟨rfl, -⟩ := ends_of_solve wellFormed searched
    obtain ⟨degrees, counted, -⟩ := Formula.degrees_of_wellFormed wellFormed
    rw [backbone_of_solve searched counted]
    cases outcome : found.outcome with
    | unsatisfiable => exact .inr ⟨_, rfl, .refuted searched outcome⟩
    | inconclusive => exact .inr ⟨_, rfl, .unsettled searched outcome⟩
    | satisfiable m =>
      have model := isModel_of_solve wellFormed searched outcome
      have within := steps_le_of_solve wellFormed searched
      obtain ⟨sound, -⟩ := Survey.sound_start wellFormed model counted found.steps
      have fewer := Nat.mul_le_mul_right (stepBound limit f) (lowHalf_le f.numVars)
      have ran := Survey.foldlM_classify wellFormed model limit sound
        fun v member => range_of_mem_range' member
      rw [List.length_range'] at ran
      rcases ran with ⟨failed, full⟩ | ⟨s, folded, turns⟩
      · left
        have filled : wordBound ≤ found.steps + lowHalf f.numVars * stepBound limit f + 1 := full
        simp only [failed, error_bind, true_and]
        omega
      · refine .inr ⟨s.report m, ?_, .surveyed searched outcome counted turns⟩
        simp only [folded, ok_bind]

theorem reports_of_backbone {r : BackboneReport} {sig : Signal} (wellFormed : f.WellFormed)
    (reported : backbone limit f .never = .ok (r, sig)) : Reports limit f r := by
  rcases backbone_reports wellFormed limit with ⟨failed, -⟩ | ⟨_, same, reports⟩
  · cases reported.symm.trans failed
  · cases reported.symm.trans same
    exact reports

private theorem lowHalf_of_small {n : Nat} (small : n ≤ maxVar) : lowHalf n = n := by
  apply lowHalf_of_lt
  have fits : maxVar < halfBound := by decide
  omega

theorem Survey.complete_of_turns {m : Assignment} {degrees : Array Nat} {steps : Nat} {s : Survey}
    (wellFormed : f.WellFormed) (small : f.numVars ≤ maxVar) (model : f.IsModel m)
    (counted : f.degrees = .ok degrees)
    (turns : Turns limit f m (List.range' 1 (lowHalf f.numVars)) (start degrees steps) s) :
    s.Sound f ∧ (2 ^ (f.vars.card + 1) - 1 ≤ limit → s.Decided) ∧
      ∀ v status, 0 < v → ((s.report m).statuses[v - 1]? = some status ↔
        s.statuses[v - 1]? = some (some status)) := by
  obtain ⟨initial, decided⟩ := sound_start wellFormed model counted steps
  have positive : ∀ v ∈ List.range' 1 (lowHalf f.numVars), 0 < v :=
    fun v member => (range_of_mem_range' member).1
  have settled := turns.settled wellFormed model initial positive
  obtain ⟨sound, answered⟩ := turns.preserve wellFormed model initial positive
    (P := fun s => 2 ^ (f.vars.card + 1) - 1 ≤ limit → s.Decided)
    (fun v t t' sound nonzero turn before enough =>
      turn.decided wellFormed sound enough nonzero (before enough))
    fun _ => decided
  refine ⟨sound, answered, fun v status nonzero => ?_⟩
  constructor
  · intro reported
    simp only [report, List.getElem?_map, Array.getElem?_toList] at reported
    obtain ⟨entry, present, given⟩ := Option.map_eq_some_iff.mp reported
    have bounds := sound.bound present nonzero
    have all : lowHalf f.numVars = f.numVars := lowHalf_of_small small
    obtain ⟨known, entry'⟩ := settled v (List.mem_range'_1.mpr ⟨nonzero, by omega⟩)
    cases present.symm.trans entry'
    cases given
    exact entry'
  · exact report_of_entry

variable {r : BackboneReport} (wellFormed : f.WellFormed) (small : f.numVars ≤ maxVar)
  (reports : Reports limit f r)

include wellFormed reports in
private theorem Reports.not_satisfiable (refuted : r.satisfiable = some false) :
    ¬ f.Satisfiable := by
  cases reports with
  | refuted searched outcome =>
    rintro ⟨a, model⟩
    exact not_isModel_of_solve wellFormed searched outcome a model
  | unsettled | surveyed => cases refuted

include wellFormed small reports in
theorem Reports.statuses_hold (found : r.satisfiable = some true) :
    (∃ m, r.model = some m ∧ f.IsModel m) ∧ r.statuses.length = f.numVars ∧
      ∀ v status, 0 < v → r.statuses[v - 1]? = some status → status.Holds f v := by
  cases reports with
  | refuted | unsettled => cases found
  | @surveyed _ m _ s searched outcome counted turns =>
    have model := isModel_of_solve wellFormed searched outcome
    obtain ⟨sound, -, entries⟩ := Survey.complete_of_turns wellFormed small model counted turns
    refine ⟨⟨m, rfl, model⟩, ?_, fun v status positive entry => ?_⟩
    · simpa [Survey.report] using sound.size
    · exact sound.holds v status positive ((entries v status positive).mp entry)

include wellFormed small reports in
/-- The variables that a report which leaves nothing open calls frozen are those with one value in
all models. -/
private theorem Reports.mem_frozen_iff_of_determined (answered : r.satisfiable ≠ none)
    (determined : .undetermined ∉ r.statuses) {v : Nat} {b : Bool} :
    (v, b) ∈ r.frozen ↔ f.Satisfiable ∧ ∀ a, f.IsModel a → a.value v = .ok b := by
  rw [BackboneReport.mem_frozen]
  cases reports with
  | refuted searched outcome =>
    have none := not_isModel_of_solve wellFormed searched outcome
    simp [Formula.Satisfiable, none]
  | unsettled => exact absurd rfl answered
  | @surveyed _ m _ s searched outcome counted turns =>
    have model := isModel_of_solve wellFormed searched outcome
    obtain ⟨-, length, holds⟩ :=
      (Reports.surveyed searched outcome counted turns).statuses_hold wellFormed small rfl
    -- A free variable would have its other value in some model, and none is undetermined.
    constructor
    · rintro ⟨positive, entry⟩
      exact ⟨⟨m, model⟩, holds v _ positive entry⟩
    · rintro ⟨-, constant⟩
      obtain ⟨positive, bound⟩ := Assignment.range_of_value (constant m model)
      have place : v - 1 < (s.report m).statuses.length := by
        rw [length, ← model.1]
        omega
      have entry := List.getElem?_eq_getElem place
      refine ⟨positive, ?_⟩
      cases known : (s.report m).statuses[v - 1] with
      | frozen c =>
        have same := (holds v _ positive (known ▸ entry) m model).symm.trans (constant m model)
        cases same
        exact known ▸ entry
      | free =>
        have free : Status.free.Holds f v := holds v _ positive (known ▸ entry)
        obtain ⟨a, modelled, opposite⟩ := free (!b)
        have both := opposite.symm.trans (constant a modelled)
        simp at both
      | undetermined => exact absurd (known ▸ List.getElem_mem place) determined

include wellFormed small reports in
theorem Reports.length_frozen (resolved : r.Resolved) : r.frozen.length = f.constants.ncard := by
  have answered : r.satisfiable ≠ none := by simp [resolved.satisfiable]
  have determined := BackboneReport.undetermined_eq_nil_iff.mp resolved.determined
  obtain ⟨⟨m, -, model⟩, -⟩ := reports.statuses_hold wellFormed small resolved.satisfiable
  have vars : f.constants = ((r.frozen.map Prod.fst).toFinset : Set Nat) := by
    ext v
    rw [List.coe_toFinset, Set.mem_ofPred_eq, List.mem_map]
    constructor
    · rintro ⟨-, b, constant⟩
      exact ⟨(v, b), (reports.mem_frozen_iff_of_determined wellFormed small answered
        determined).mpr ⟨⟨m, model⟩, constant⟩, rfl⟩
    · rintro ⟨⟨v, b⟩, member, rfl⟩
      obtain ⟨-, constant⟩ :=
        (reports.mem_frozen_iff_of_determined wellFormed small answered determined).mp member
      have range := Assignment.range_of_value (constant m model)
      exact ⟨⟨range.1, model.1 ▸ range.2⟩, b, constant⟩
  have distinct : (r.frozen.map Prod.fst).Nodup :=
    List.pairwise_map.mpr (r.pairwise_frozen.imp fun before => before.ne)
  rw [vars, Set.ncard_coe_finset, List.toFinset_card_of_nodup distinct, List.length_map]

section Enough

variable (enough : 2 ^ (f.vars.card + 1) - 1 ≤ limit)

include wellFormed reports enough

private theorem Reports.satisfiable_ne_none : r.satisfiable ≠ none := by
  cases reports with
  | refuted | surveyed => exact Option.some_ne_none _
  | unsettled searched outcome =>
    obtain ⟨found, returned, answer, -⟩ := solve_decides wellFormed enough
    cases searched.symm.trans returned
    exact absurd outcome answer

include small

private theorem Reports.undetermined_not_mem : .undetermined ∉ r.statuses := by
  cases reports with
  | refuted | unsettled => exact List.not_mem_nil
  | surveyed searched outcome counted turns =>
    have model := isModel_of_solve wellFormed searched outcome
    obtain ⟨-, decided, entries⟩ := Survey.complete_of_turns wellFormed small model counted turns
    intro member
    obtain ⟨i, entry⟩ := List.mem_iff_getElem?.mp member
    exact decided enough (i + 1) i.succ_pos ((entries (i + 1) _ i.succ_pos).mp entry)

private theorem Reports.mem_frozen_iff {v : Nat} {b : Bool} :
    (v, b) ∈ r.frozen ↔ f.Satisfiable ∧ ∀ a, f.IsModel a → a.value v = .ok b :=
  reports.mem_frozen_iff_of_determined wellFormed small
    (reports.satisfiable_ne_none wellFormed enough)
    (reports.undetermined_not_mem wellFormed small enough)

end Enough

end Report

/-- The report on the backbone of a well-formed formula. A report is returned unless the step
counts can fill the word, and there is no other failure. Under every step limit, a formula that is
reported unsatisfiable has no model, and for a formula that is reported satisfiable the model is one
and each variable has a status that is right. When each search may take as many steps as a binary
tree over the variables that occur has nodes, the report is complete: nothing is left open, and the
frozen variables, ascending, are those that have one value in all models. -/
theorem backbone_correct {f : Formula} (wellFormed : f.WellFormed) (small : f.numVars ≤ maxVar)
    (limit : Nat) :
    ((f.numVars + 1) * stepBound limit f + 1 < wordBound →
        ∃ r, backbone limit f .never = .ok (r, .never)) ∧
      (∀ e, backbone limit f .never = .error e → e = .fault .overflow) ∧
      ∀ r sig, backbone limit f .never = .ok (r, sig) →
        (r.satisfiable = some false → ¬ f.Satisfiable) ∧
        (r.satisfiable = some true → (∃ m, r.model = some m ∧ f.IsModel m) ∧
          r.statuses.length = f.numVars ∧
          ∀ v status, 0 < v → r.statuses[v - 1]? = some status → status.Holds f v) ∧
        (2 ^ (f.vars.card + 1) - 1 ≤ limit →
          r.satisfiable ≠ none ∧ .undetermined ∉ r.statuses ∧
          r.frozen.Pairwise (fun p q => p.1 < q.1) ∧
          ∀ v b, (v, b) ∈ r.frozen ↔ f.Satisfiable ∧ ∀ a, f.IsModel a → a.value v = .ok b) := by
  have ran := backbone_reports wellFormed limit
  refine ⟨fun word => ?_, fun e failed => ?_, fun r sig returned => ?_⟩
  · rcases ran with ⟨-, full⟩ | ⟨r, returned, -⟩
    · omega
    · exact ⟨r, returned⟩
  · rcases ran with ⟨failed', -⟩ | ⟨r, returned, -⟩
    · cases failed.symm.trans failed'
      rfl
    · cases failed.symm.trans returned
  · rcases ran with ⟨failed, -⟩ | ⟨r', returned', reports⟩
    · cases returned.symm.trans failed
    · cases returned.symm.trans returned'
      refine ⟨reports.not_satisfiable wellFormed, reports.statuses_hold wellFormed small,
        fun enough => ⟨reports.satisfiable_ne_none wellFormed enough,
          reports.undetermined_not_mem wellFormed small enough, r.pairwise_frozen, fun v b => ?_⟩⟩
      exact reports.mem_frozen_iff wellFormed small enough

/-- Two clauses that leave the first of three variables no choice. -/
def corner : Formula := ⟨3, [⟨[⟨1⟩, ⟨2⟩]⟩, ⟨[⟨1⟩, ⟨-2⟩]⟩]⟩

theorem corner_frozen : corner.WellFormed ∧ corner.numVars ≤ maxVar ∧
    ∃ r, backbone 7 corner .never = .ok (r, .never) ∧ (1, true) ∈ r.frozen := by
  have wellFormed : corner.WellFormed := by decide
  have small : corner.numVars ≤ maxVar := by decide
  obtain ⟨returns, -, correct⟩ := backbone_correct wellFormed small 7
  obtain ⟨r, returned⟩ := returns (by decide)
  obtain ⟨-, -, -, frozen⟩ := (correct r _ returned).2.2 (by decide)
  have satisfiable : corner.Satisfiable := ⟨⟨#[true, true, true]⟩, by decide⟩
  refine ⟨wellFormed, small, r, returned, (frozen 1 true).mpr ⟨satisfiable, ?_⟩⟩
  intro a model
  obtain ⟨k, member, first⟩ := model.2 ⟨[⟨1⟩, ⟨2⟩]⟩ (by decide)
  obtain ⟨l, member', second⟩ := model.2 ⟨[⟨1⟩, ⟨-2⟩]⟩ (by decide)
  simp only [List.mem_cons, List.not_mem_nil, or_false] at member member'
  rcases member with rfl | rfl
  · exact Assignment.value_eq_ok_iff.mpr first
  · rcases member' with rfl | rfl
    · exact Assignment.value_eq_ok_iff.mpr second
    · exact absurd second (Assignment.not_satisfies_neg (by decide) first)

end Search

end SatLab
