import SatLab.Proofs.Cnf.Forcing
import SatLab.Proofs.Search.Verdict
import SatLab.Search.Backbone
/-!
Surveys that no signal stops. Each variable that is not classified when its turn comes is checked
by a search in the formula that forces its other value, and what the search finds is recorded. A
recorded status is right, and it is never taken back; with enough steps for each search it is
never undetermined.
-/

set_option autoImplicit false
set_option relaxedAutoImplicit false

namespace SatLab.Search

/-- What a status says about a variable. -/
def Status.Holds (f : Formula) (v : Nat) : Status → Prop
  | .frozen b => ∀ a, f.IsModel a → a.value v = .ok b
  | .free => ∀ b, ∃ a, f.IsModel a ∧ a.value v = .ok b
  | .undetermined => True

private theorem Status.free_of_values {f : Formula} {v : Nat} {m other : Assignment} {b : Bool}
    (model : f.IsModel m) (second : f.IsModel other) (value : m.value v = .ok b)
    (differs : other.value v = .ok (!b)) : Status.free.Holds f v := by
  intro c
  by_cases same : c = b
  · exact ⟨m, model, same ▸ value⟩
  · have opposite : c = !b := by
      cases b <;> cases c <;> simp_all
    exact ⟨other, second, opposite ▸ differs⟩

namespace Survey

/-- A survey whose table has a place for each variable, whose statuses are right, and which has
classified the variables that do not occur. -/
structure Sound (f : Formula) (s : Survey) : Prop where
  size : s.statuses.size = f.numVars
  holds : ∀ v status, 0 < v → s.statuses[v - 1]? = some (some status) → status.Holds f v
  occurs : ∀ v, 0 < v → s.statuses[v - 1]? = some none → v ∈ f.vars

/-- A survey in which no status is undetermined. -/
def Decided (s : Survey) : Prop :=
  ∀ w, 0 < w → s.statuses[w - 1]? ≠ some (some .undetermined)

/-- The status of a variable that has value `b` in the first model, by what the search for a model
with the other value finds. -/
def status (b : Bool) : Outcome → Status
  | .unsatisfiable => .frozen b
  | .inconclusive => .undetermined
  | .satisfiable _ => .free

/-- The status that a search for a further model reveals of a variable that it was not made for. -/
def revealed (m : Assignment) (w : Nat) : Outcome → Option Status
  | .satisfiable other => if other.values[w - 1]? = m.values[w - 1]? then none else some .free
  | _ => none

/-- The survey after a check of a variable that has value `b` in the first model. -/
def record (m : Assignment) (v : Nat) (b : Bool) (found : Result) (s : Survey) : Survey where
  statuses := (match found.outcome with
    | .satisfiable other => freeDifferences s.statuses m other
    | _ => s.statuses).setIfInBounds (v - 1) (some (status b found.outcome))
  totalSteps := s.totalSteps + found.steps

/-- The turn of a variable in a survey of the formula from its first model. -/
inductive Turn (limit : Nat) (f : Formula) (m : Assignment) (v : Nat) (s : Survey) : Survey → Prop
  | skip {status : Status} (known : s.statuses[v - 1]? = some (some status)) : Turn limit f m v s s
  | check {b : Bool} {found : Result} (pending : s.statuses[v - 1]? = some none)
      (value : m.value v = .ok b)
      (searched : solve limit (f.force v !b) .never = .ok (found, .never)) :
      Turn limit f m v s (s.record m v b found)

/-- The turns of several variables, one after the other. -/
inductive Turns (limit : Nat) (f : Formula) (m : Assignment) : List Nat → Survey → Survey → Prop
  | nil {s : Survey} : Turns limit f m [] s s
  | cons {v : Nat} {vs : List Nat} {s s' s'' : Survey} (turn : Turn limit f m v s s')
      (rest : Turns limit f m vs s' s'') : Turns limit f m (v :: vs) s s''

section Check

variable {f : Formula} {m : Assignment} {s : Survey} {v w limit : Nat} {b : Bool} {found : Result}

/-- The entries after a check: the variable checked has its status, and of the others those that
were not classified may have been revealed. -/
theorem entry_record (positive : 0 < v) (inside : v ≤ s.statuses.size) (nonzero : 0 < w) :
    (s.record m v b found).statuses[w - 1]? =
      if w = v then some (some (status b found.outcome))
      else s.statuses[w - 1]?.map fun known => known.or (revealed m w found.outcome) := by
  by_cases same : w = v
  · subst same
    have place : w - 1 < s.statuses.size := by omega
    cases outcome : found.outcome <;> simp [record, freeDifferences, outcome, place]
  · have apart : v - 1 ≠ w - 1 := by omega
    cases outcome : found.outcome with
    | satisfiable other =>
      simp only [record, outcome, freeDifferences, revealed, same, if_false,
        Array.getElem?_setIfInBounds_ne apart, Array.getElem?_mapIdx]
      congr 1
      funext known
      by_cases equal : other.values[w - 1]? = m.values[w - 1]? <;> cases known <;> simp [equal]
    | unsatisfiable | inconclusive =>
      simp [record, outcome, revealed, same, Array.getElem?_setIfInBounds_ne apart]

/-- A status that stands after a check is that of the variable checked, stood before, or has been
revealed. -/
theorem known_of_record {known : Status} (positive : 0 < v) (inside : v ≤ s.statuses.size)
    (nonzero : 0 < w) (entry : (s.record m v b found).statuses[w - 1]? = some (some known)) :
    (w = v ∧ known = status b found.outcome) ∨ s.statuses[w - 1]? = some (some known) ∨
      (s.statuses[w - 1]? = some none ∧ revealed m w found.outcome = some known) := by
  rw [entry_record positive inside nonzero] at entry
  by_cases same : w = v
  · rw [if_pos same, Option.some.injEq, Option.some.injEq] at entry
    exact .inl ⟨same, entry.symm⟩
  · rw [if_neg same] at entry
    obtain ⟨before, present, recorded⟩ := Option.map_eq_some_iff.mp entry
    cases before with
    | none => exact .inr (.inr ⟨present, recorded⟩)
    | some old =>
      cases recorded
      exact .inr (.inl present)

private theorem pending_of_record (positive : 0 < v) (inside : v ≤ s.statuses.size)
    (nonzero : 0 < w) (entry : (s.record m v b found).statuses[w - 1]? = some none) :
    s.statuses[w - 1]? = some none := by
  rw [entry_record positive inside nonzero] at entry
  by_cases same : w = v
  · simp [same] at entry
  · rw [if_neg same] at entry
    obtain ⟨before, present, recorded⟩ := Option.map_eq_some_iff.mp entry
    obtain ⟨rfl, -⟩ := Option.or_eq_none_iff.mp recorded
    exact present

variable (wellFormed : f.WellFormed) (named : v ≤ maxVar) (model : f.IsModel m)
  (positive : 0 < v) (inside : v ≤ f.numVars) (value : m.value v = .ok b)
  (searched : solve limit (f.force v !b) .never = .ok (found, .never))

include wellFormed named positive inside searched in
theorem isModel_of_check {other : Assignment} (outcome : found.outcome = .satisfiable other) :
    f.IsModel other ∧ other.value v = .ok (!b) :=
  (Formula.isModel_force_iff positive).mp
    (isModel_of_solve (wellFormed.force positive inside named) searched outcome)

include wellFormed named model positive inside value searched in
private theorem status_holds : (status b found.outcome).Holds f v := by
  cases outcome : found.outcome with
  | inconclusive => trivial
  | satisfiable other =>
    obtain ⟨second, differs⟩ :=
      isModel_of_check wellFormed named positive inside searched outcome
    exact Status.free_of_values model second value differs
  | unsatisfiable =>
    intro a modelled
    by_contra differs
    have opposite := a.value_not_of_ne positive (modelled.1 ▸ inside) differs
    exact not_isModel_of_solve (wellFormed.force positive inside named) searched outcome a
      ((Formula.isModel_force_iff positive).mpr ⟨modelled, opposite⟩)

include wellFormed named model positive inside searched in
private theorem revealed_holds (nonzero : 0 < w) (bound : w ≤ f.numVars) {known : Status}
    (reveals : revealed m w found.outcome = some known) : known.Holds f w := by
  cases outcome : found.outcome with
  | unsatisfiable | inconclusive => simp [outcome, revealed] at reveals
  | satisfiable other =>
    simp only [outcome, revealed, Option.ite_none_left_eq_some, Option.some.injEq] at reveals
    obtain ⟨differs, rfl⟩ := reveals
    obtain ⟨second, -⟩ := isModel_of_check wellFormed named positive inside searched outcome
    -- The two models differ on the variable, which is not the one that was checked.
    obtain ⟨c, first⟩ := m.exists_value nonzero (model.1 ▸ bound)
    refine Status.free_of_values model second first ?_
    apply other.value_not_of_ne nonzero (second.1 ▸ bound)
    intro equal
    have here := (Assignment.value_eq_ok_iff.mp first).2
    have there := (Assignment.value_eq_ok_iff.mp equal).2
    exact differs (there.trans here.symm)

end Check

section Classify

variable {f : Formula} {m : Assignment} {s s' : Survey} {v limit : Nat}
  (wellFormed : f.WellFormed) (model : f.IsModel m) (sound : s.Sound f)

include sound in
theorem Sound.bound {entry : Option Status}
    (present : s.statuses[v - 1]? = some entry) (positive : 0 < v) : v ≤ f.numVars := by
  have place := (Array.getElem?_eq_some_iff.mp present).1
  rw [sound.size] at place
  omega

include wellFormed sound in
theorem Sound.named (positive : 0 < v) (pending : s.statuses[v - 1]? = some none) :
    v ≤ maxVar := by
  obtain ⟨l, occurs, rfl⟩ := Formula.mem_vars.mp (sound.occurs v positive pending)
  exact (wellFormed.of_mem_literals occurs).1.2

include wellFormed model sound in
theorem Sound.of_turn (positive : 0 < v) (turn : Turn limit f m v s s') :
    s'.Sound f := by
  cases turn with
  | skip => exact sound
  | @check b found pending value searched =>
    have inside := sound.bound pending positive
    have named := sound.named wellFormed positive pending
    have place : v ≤ s.statuses.size := sound.size ▸ inside
    refine ⟨?_, fun w known nonzero entry => ?_, fun w nonzero entry => ?_⟩
    · cases outcome : found.outcome <;> simp [record, freeDifferences, outcome, sound.size]
    · rcases known_of_record positive place nonzero entry with
        ⟨rfl, rfl⟩ | stood | ⟨present, reveals⟩
      · exact status_holds wellFormed named model positive inside value searched
      · exact sound.holds w known nonzero stood
      · exact revealed_holds wellFormed named model positive inside searched nonzero
          (sound.bound present nonzero) reveals
    · exact sound.occurs w nonzero (pending_of_record positive place nonzero entry)

include sound in
theorem Turn.kept {w : Nat} {known : Status} (positive : 0 < v) (nonzero : 0 < w)
    (entry : s.statuses[w - 1]? = some (some known)) (turn : Turn limit f m v s s') :
    s'.statuses[w - 1]? = some (some known) := by
  cases turn with
  | skip => exact entry
  | check pending value searched =>
    have apart : w ≠ v := by
      rintro rfl
      rw [pending] at entry
      cases entry
    rw [entry_record positive (sound.size ▸ sound.bound pending positive) nonzero, if_neg apart,
      entry]
    rfl

include sound in
theorem Turn.settled (positive : 0 < v) (turn : Turn limit f m v s s') :
    ∃ known, s'.statuses[v - 1]? = some (some known) := by
  cases turn with
  | skip known => exact ⟨_, known⟩
  | check pending value searched =>
    rw [entry_record positive (sound.size ▸ sound.bound pending positive) positive, if_pos rfl]
    exact ⟨_, rfl⟩

include wellFormed sound in
private theorem Turn.totalSteps_le (positive : 0 < v) (turn : Turn limit f m v s s') :
    s'.totalSteps ≤ s.totalSteps + stepBound limit f := by
  cases turn with
  | skip => exact Nat.le_add_right _ _
  | @check b found pending value searched =>
    have named := sound.named wellFormed positive pending
    have forced := wellFormed.force (b := !b) positive (sound.bound pending positive) named
    have within := steps_le_of_solve forced searched
    rw [stepBound, Formula.vars_force (sound.occurs v positive pending)] at within
    exact Nat.add_le_add_left within _

include wellFormed sound in
theorem Turn.decided (enough : 2 ^ (f.vars.card + 1) - 1 ≤ limit) (positive : 0 < v)
    (decided : s.Decided) (turn : Turn limit f m v s s') : s'.Decided := by
  cases turn with
  | skip => exact decided
  | @check b found pending value searched =>
    have inside := sound.bound pending positive
    have named := sound.named wellFormed positive pending
    have forced := wellFormed.force (b := !b) positive inside named
    -- A variable that still waits for its turn occurs, so forcing it adds no variable.
    rw [← Formula.vars_force (b := !b) (sound.occurs v positive pending)] at enough
    obtain ⟨r, returned, answer, -⟩ := solve_decides forced enough
    obtain ⟨rfl, -⟩ := Prod.mk.inj (Except.ok.inj (searched.symm.trans returned))
    intro w nonzero entry
    rcases known_of_record positive (sound.size ▸ inside) nonzero entry with
      ⟨rfl, undetermined⟩ | stood | ⟨-, reveals⟩
    · cases outcome : found.outcome <;> simp [outcome, status] at undetermined answer
    · exact decided w nonzero stood
    · cases outcome : found.outcome <;> simp [outcome, revealed] at reveals

theorem classify_of_known {status : Status} (known : s.statuses[v - 1]? = some (some status)) :
    classify limit f m s v .never = .ok (s, .never) := by
  rw [classify, known]
  rfl

section Pending

variable {b : Bool} (positive : 0 < v) (inside : v ≤ f.numVars) (named : v ≤ maxVar)
  (pending : s.statuses[v - 1]? = some none) (value : m.value v = .ok b)

include wellFormed positive inside named pending value

private theorem classify_of_failure {e : Fault}
    (failed : solve limit (f.force v !b) .never = .error e) :
    classify limit f m s v .never = .error (.fault e) := by
  have opposite := Assignment.opposite_of_value positive named value
  simp only [classify, pending, opposite, Fault.guard, ok_mapError, Task.bind_apply,
    Task.check_never, ok_bind, Task.lift_ok, Formula.withClause_eq_force wellFormed inside,
    Task.mapError_error failed, error_bind]

/-- What the search finds of a variable that waits for its turn is recorded, unless the steps leave
the word. -/
theorem classify_of_search {found : Result}
    (searched : solve limit (f.force v !b) .never = .ok (found, .never)) :
    classify limit f m s v .never =
      if s.totalSteps + found.steps < wordBound then .ok (s.record m v b found, .never)
      else .error (.fault .overflow) := by
  have opposite := Assignment.opposite_of_value positive named value
  simp only [classify, pending, opposite, Fault.guard, ok_mapError, Task.bind_apply,
    Task.check_never, ok_bind, Task.lift_ok, Formula.withClause_eq_force wellFormed inside,
    Task.mapError_ok searched, value, addCounters]
  by_cases fits : s.totalSteps + found.steps < wordBound
  · cases outcome : found.outcome <;> simp [fits, outcome, record, status]
  · simp [fits]

end Pending

include wellFormed model sound in
theorem classify_cases (limit : Nat) (positive : 0 < v) (inside : v ≤ f.numVars) :
    (classify limit f m s v .never = .error (.fault .overflow) ∧
        wordBound ≤ s.totalSteps + stepBound limit f + 1) ∨
      ∃ s', classify limit f m s v .never = .ok (s', .never) ∧ Turn limit f m v s s' := by
  have place : v - 1 < s.statuses.size := by
    rw [sound.size]
    omega
  cases entry : s.statuses[v - 1]? with
  | none => simp [Nat.not_le.mpr place] at entry
  | some known =>
    cases known with
    | some status => exact .inr ⟨s, classify_of_known entry, .skip entry⟩
    | none =>
      obtain ⟨b, value⟩ := m.exists_value positive (model.1 ▸ inside)
      have named := sound.named wellFormed positive entry
      have forced : (f.force v !b).WellFormed := wellFormed.force positive inside named
      have steps : stepBound limit (f.force v !b) = stepBound limit f := by
        rw [stepBound, stepBound, Formula.vars_force (sound.occurs v positive entry)]
      cases searched : solve limit (f.force v !b) .never with
      | error e =>
        left
        obtain ⟨rfl, full⟩ := overflow_of_solve forced searched
        rw [steps] at full
        have failed := classify_of_failure wellFormed positive inside named entry value searched
        exact ⟨failed, by omega⟩
      | ok p =>
        obtain ⟨found, sig⟩ := p
        obtain ⟨rfl, -⟩ := ends_of_solve forced searched
        have within := steps_le_of_solve forced searched
        rw [steps] at within
        rw [classify_of_search wellFormed positive inside named entry value searched]
        by_cases fits : s.totalSteps + found.steps < wordBound
        · exact .inr ⟨_, if_pos fits, .check entry value searched⟩
        · exact .inl ⟨if_neg fits, by omega⟩

end Classify

section Run

variable {f : Formula} {m : Assignment} {s s' : Survey} {vs : List Nat} {limit : Nat}
  (wellFormed : f.WellFormed) (model : f.IsModel m)

include wellFormed model

theorem foldlM_classify (limit : Nat) (sound : s.Sound f)
    (range : ∀ v ∈ vs, 0 < v ∧ v ≤ f.numVars) :
    (vs.foldlM (classify limit f m) s .never = .error (.fault .overflow) ∧
        wordBound ≤ s.totalSteps + vs.length * stepBound limit f + 1) ∨
      ∃ s', vs.foldlM (classify limit f m) s .never = .ok (s', .never) ∧
        Turns limit f m vs s s' := by
  -- The bound counts what the remaining turns may add to the steps taken so far.
  induction vs generalizing s with
  | nil => exact .inr ⟨s, rfl, .nil⟩
  | cons v vs ih =>
    obtain ⟨positive, inside⟩ := range v List.mem_cons_self
    have lengths : (vs.length + 1) * stepBound limit f =
        vs.length * stepBound limit f + stepBound limit f := Nat.succ_mul _ _
    rw [List.foldlM_cons, Task.bind_apply, List.length_cons, lengths]
    rcases classify_cases wellFormed model sound limit positive inside with
      ⟨failed, full⟩ | ⟨s', classified, turn⟩
    · left
      rw [failed]
      exact ⟨rfl, by omega⟩
    · rw [classified, ok_bind]
      have grown := turn.totalSteps_le wellFormed sound positive
      have rest := fun w member => range w (List.mem_cons_of_mem v member)
      rcases ih (sound.of_turn wellFormed model positive turn) rest with
        ⟨failed, full⟩ | ⟨s'', folded, turns⟩
      · left
        exact ⟨failed, full.trans (by omega)⟩
      · exact .inr ⟨s'', folded, .cons turn turns⟩

theorem turns_of_foldlM {sig : Signal} (sound : s.Sound f) (range : ∀ v ∈ vs, 0 < v ∧ v ≤ f.numVars)
    (folded : vs.foldlM (classify limit f m) s .never = .ok (s', sig)) :
    Turns limit f m vs s s' := by
  rcases foldlM_classify wellFormed model limit sound range with
    ⟨failed, -⟩ | ⟨last, same, turns⟩
  · cases folded.symm.trans failed
  · cases folded.symm.trans same
    exact turns

theorem Turns.preserve {P : Survey → Prop} (sound : s.Sound f) (positive : ∀ v ∈ vs, 0 < v)
    (step : ∀ v s s', s.Sound f → 0 < v → Turn limit f m v s s' → P s → P s')
    (turns : Turns limit f m vs s s') (initially : P s) : s'.Sound f ∧ P s' := by
  induction turns with
  | nil => exact ⟨sound, initially⟩
  | @cons v vs s _ _ turn _ ih =>
    have here := positive v List.mem_cons_self
    have next := sound.of_turn wellFormed model here turn
    exact ih next (fun w member => positive w (List.mem_cons_of_mem v member))
      (step v s _ sound here turn initially)

theorem Turns.settled (sound : s.Sound f) (positive : ∀ v ∈ vs, 0 < v)
    (turns : Turns limit f m vs s s') :
    ∀ v ∈ vs, ∃ known, s'.statuses[v - 1]? = some (some known) := by
  induction turns with
  | nil =>
    intro v member
    cases member
  | @cons v vs _ _ _ turn rest ih =>
    have here := positive v List.mem_cons_self
    have later := fun w member => positive w (List.mem_cons_of_mem v member)
    have next := sound.of_turn wellFormed model here turn
    intro w member
    rcases List.mem_cons.mp member with rfl | behind
    · obtain ⟨known, entry⟩ := turn.settled sound here
      have kept := rest.preserve wellFormed model next later
        (fun u t t' sound positive turn => turn.kept sound positive here) entry
      exact ⟨known, kept.2⟩
    · exact ih next later w behind

end Run

end Survey

end SatLab.Search
