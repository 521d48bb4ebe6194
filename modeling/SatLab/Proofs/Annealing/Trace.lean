import SatLab.Proofs.Annealing.EarlyEnd
import SatLab.Proofs.Annealing.Report
/-!
The walk of an anneal, step after step. With the words of its source an anneal goes through a fixed
sequence of assignments, and its trace holds for each of them, the first one apart, how many clauses
it falsifies.
-/

set_option autoImplicit false
set_option relaxedAutoImplicit false

namespace SatLab.Annealing

open SatLab.Random (WordSource Draw)

variable {σ : Type} [WordSource σ]

namespace Walk

/-- The walk and the source after one more step, if there is a move to make, taken or not. -/
def next? (f : Formula) (schedule : Schedule) (p : Walk × σ) : Option (Walk × σ) :=
  match step f p.1.assignment p.1.unsat p.1.temperature schedule.acceptance p.2 with
  | (.ok (.moved m), s) => some (p.1.advance schedule m, s)
  | _ => none

/-- The walk and the source after a number of steps, if there are as many. -/
def after? (f : Formula) (schedule : Schedule) (p : Walk × σ) : Nat → Option (Walk × σ)
  | 0 => some p
  | j + 1 => (after? f schedule p j).bind (next? f schedule)

section Next

variable {f : Formula} {schedule : Schedule} {w w' : Walk} {s s' : σ}

private theorem next?_eq_some_iff : next? f schedule (w, s) = some (w', s') ↔
    ∃ m, step f w.assignment w.unsat w.temperature schedule.acceptance s = (.ok (.moved m), s') ∧
      w' = w.advance schedule m := by
  rw [next?]
  split
  · next m s₁ stepped =>
    constructor
    · intro moved
      cases moved
      exact ⟨m, stepped, rfl⟩
    · rintro ⟨m', stepped', rfl⟩
      cases stepped.symm.trans stepped'
      rfl
  · next other =>
    constructor
    · intro moved
      cases moved
    · rintro ⟨m, stepped, -⟩
      exact absurd stepped (other m s')

private theorem next?_eq_none (satisfied : w.unsat = []) : next? f schedule (w, s) = none := by
  rw [Option.eq_none_iff_forall_ne_some]
  rintro ⟨w', s'⟩ moved
  obtain ⟨m, stepped, -⟩ := next?_eq_some_iff.mp moved
  obtain ⟨place, member, -⟩ := (follows_of_step stepped).drawn
  rw [satisfied] at member
  cases member

end Next

section After

variable {f : Formula} {schedule : Schedule} {p : Walk × σ} {w w' : Walk} {s s' : σ} {i j : Nat}

private theorem after?_succ (p : Walk × σ) (j : Nat) :
    after? f schedule p (j + 1) = (next? f schedule p).bind fun q => after? f schedule q j := by
  induction j with
  | zero => simp [after?]
  | succ j ih =>
    rw [after?, ih, Option.bind_assoc]
    rfl

private theorem exists_after?_of_le (reached : after? f schedule p j = some (w', s')) (le : i ≤ j) :
    ∃ u t, after? f schedule p i = some (u, t) := by
  induction le generalizing w' s' with
  | refl => exact ⟨w', s', reached⟩
  | step le ih =>
    obtain ⟨⟨u, t⟩, before, -⟩ := Option.bind_eq_some_iff.mp reached
    exact ih before

private theorem after?_induction {P : Walk → Prop}
    (preserved : ∀ w m, P w → m.Follows f w.assignment w.unsat → P (w.advance schedule m))
    (holds : P w) (reached : after? f schedule (w, s) j = some (w', s')) : P w' := by
  induction j generalizing w' s' with
  | zero =>
    cases reached
    exact holds
  | succ j ih =>
    obtain ⟨⟨u, t⟩, before, moved⟩ := Option.bind_eq_some_iff.mp reached
    obtain ⟨m, stepped, rfl⟩ := next?_eq_some_iff.mp moved
    exact preserved u m (ih before) (follows_of_step stepped)

/-- Every step adds an energy to the trace, so the trace tells the energies of all walks behind the
first one. -/
private theorem trace_of_after? (reached : after? f schedule (w, s) j = some (w', s')) :
    ∃ energies : List Nat, w'.trace = energies.reverse ++ w.trace ∧ energies.length = j ∧
      ∀ i < j, ∃ u t, after? f schedule (w, s) (i + 1) = some (u, t) ∧
        energies[i]? = some u.unsat.length := by
  induction j generalizing w' s' with
  | zero =>
    cases reached
    exact ⟨[], rfl, rfl, fun i inside => absurd inside (Nat.not_lt_zero i)⟩
  | succ j ih =>
    obtain ⟨⟨u, t⟩, before, moved⟩ := Option.bind_eq_some_iff.mp reached
    obtain ⟨energies, trace, length, entries⟩ := ih before
    obtain ⟨m, -, rfl⟩ := next?_eq_some_iff.mp moved
    refine ⟨energies ++ [m.energy], by simp [advance, trace], by simp [length], fun i inside => ?_⟩
    rcases Nat.lt_succ_iff_lt_or_eq.mp inside with earlier | rfl
    · obtain ⟨u', t', passed, entry⟩ := entries i earlier
      refine ⟨u', t', passed, ?_⟩
      rw [List.getElem?_append_left (by omega), entry]
    · refine ⟨u.advance schedule m, s', reached, ?_⟩
      simp [← length, advance, Move.energy]

private theorem Current.after? (current : w.Current f)
    (reached : after? f schedule (w, s) j = some (w', s')) : w'.Current f :=
  after?_induction (fun _ _ kept follows => Current.advance kept follows) current reached

private theorem eq_of_satisfied {u : Walk} {t : σ} (reached : after? f schedule p j = some (w', s'))
    (passed : after? f schedule p i = some (u, t)) (satisfied : u.unsat = []) (le : i ≤ j) :
    i = j := by
  -- To get further it would have to take a step from where it falsifies nothing.
  refine le.eq_or_lt.resolve_right fun earlier => ?_
  obtain ⟨u', t', moved⟩ := exists_after?_of_le reached (Nat.succ_le_of_lt earlier)
  rw [after?, passed, Option.bind_some, next?_eq_none satisfied] at moved
  cases moved

private theorem after?_of_extend {budget : Nat} {sig sig' : Signal}
    (ran : extend f schedule budget w s sig = .ok ((w', s'), sig')) :
    ∃ j t, after? f schedule (w, s) j = some (w', t) ∧ w'.steps = w.steps + j ∧ j ≤ budget := by
  induction budget generalizing w s sig with
  | zero =>
    cases ran
    exact ⟨0, s', rfl, rfl, le_rfl⟩
  | succ budget ih =>
    rcases extend_cases ran with ⟨rfl, -⟩ | ⟨m, s₁, stepped, later⟩
    · exact ⟨0, s, rfl, rfl, Nat.zero_le _⟩
    · obtain ⟨j, t, reached, steps, within⟩ := ih later
      refine ⟨j + 1, t, ?_, ?_, Nat.succ_le_succ within⟩
      · rw [after?_succ, next?_eq_some_iff.mpr ⟨m, stepped, rfl⟩]
        exact reached
      · simp only [steps, advance]
        omega

end After

end Walk

/-- The assignment of an anneal after a number of steps, the random one after none of them. -/
def assignmentAfter? (f : Formula) (schedule : Schedule) (s : σ) (steps : Nat) :
    Option Assignment :=
  let (start, s) := (Uniform.drawAssignment f.numVars : Draw σ Assignment) s
  (f.unsatClauses start).toOption.bind fun unsat =>
    (Walk.after? f schedule (.start schedule start unsat, s) steps).map fun p => p.1.assignment

/-- What a run says of the assignments that an anneal goes through, with the words of a source. The
run ends with the last of them, and no step is taken from one that satisfies the formula. -/
structure Run.Traced (f : Formula) (schedule : Schedule) (s : σ) (r : Run) : Prop where
  steps : r.steps = r.energyTrace.length
  within : r.steps ≤ schedule.maxSteps
  start : assignmentAfter? f schedule s 0 =
    some ((Uniform.drawAssignment f.numVars : Draw σ Assignment) s).1
  passed : ∀ i ≤ r.steps, ∃ a, assignmentAfter? f schedule s i = some a
  last : assignmentAfter? f schedule s r.steps = some r.assignment
  size : ∀ i a, assignmentAfter? f schedule s i = some a → a.size = f.numVars
  entries : ∀ i < r.steps, ∀ a, assignmentAfter? f schedule s (i + 1) = some a →
    ∃ energy, r.energyTrace[i]? = some energy ∧ f.countUnsat a = .ok energy
  solved : ∀ i ≤ r.steps, ∀ a, assignmentAfter? f schedule s i = some a →
    f.countUnsat a = .ok 0 → i = r.steps
  satisfied : r.steps < schedule.maxSteps → f.hasEmptyClause = false →
    f.countUnsat r.assignment = .ok 0

section Anneal

variable {f : Formula} {schedule : Schedule} {s s' : σ} {sig sig' : Signal} {r : Run}

private theorem assignmentAfter?_eq_some_iff {start a : Assignment} {s₁ : σ} {unsat : List Nat}
    {i : Nat} (drawn : (Uniform.drawAssignment f.numVars : Draw σ Assignment) s = (start, s₁))
    (evaluated : f.unsatClauses start = .ok unsat) :
    assignmentAfter? f schedule s i = some a ↔
      ∃ u t, Walk.after? f schedule (.start schedule start unsat, s₁) i = some (u, t) ∧
        u.assignment = a := by
  rw [assignmentAfter?, drawn]
  dsimp only
  rw [evaluated]
  simp [Except.toOption]

theorem traced_of_anneal (ran : anneal f schedule s sig = .ok ((r, s'), sig')) :
    r.Traced f schedule s := by
  unfold anneal at ran
  rcases drawn : (Uniform.drawAssignment f.numVars : Draw σ Assignment) s with ⟨start, s₁⟩
  rw [drawn] at ran
  obtain ⟨size, unsat, w, evaluated, rfl, extended⟩ := walk_of_annealFrom ran
  obtain ⟨count, t, reached, steps, within⟩ := Walk.after?_of_extend extended
  obtain rfl : w.steps = count := steps.trans (Nat.zero_add count)
  obtain ⟨energies, trace, length, entries⟩ := Walk.trace_of_after? reached
  have recorded : w.toRun.energyTrace = energies := by
    rw [Walk.toRun, trace]
    simp [Walk.start]
  have after (i : Nat) (a : Assignment) : assignmentAfter? f schedule s i = some a ↔ _ :=
    assignmentAfter?_eq_some_iff drawn evaluated
  have current {i : Nat} {u : Walk} {t : σ}
      (passed : Walk.after? f schedule (.start schedule start unsat, s₁) i = some (u, t)) :
      u.Current f := (Walk.current_start size evaluated).after? passed
  constructor
  case steps => rw [recorded, length, Walk.toRun]
  case within => exact within
  case start =>
    rw [drawn]
    exact (after 0 start).mpr ⟨_, _, rfl, rfl⟩
  case passed =>
    intro i le
    obtain ⟨u, t', passed⟩ := Walk.exists_after?_of_le reached le
    exact ⟨u.assignment, (after i _).mpr ⟨u, t', passed, rfl⟩⟩
  case last => exact (after _ _).mpr ⟨w, t, reached, rfl⟩
  case size =>
    intro i a given
    obtain ⟨u, t', passed, rfl⟩ := (after i a).mp given
    exact (current passed).size
  case entries =>
    intro i inside a given
    obtain ⟨u, t', passed, rfl⟩ := (after (i + 1) a).mp given
    obtain ⟨u', t'', passed', entry⟩ := entries i inside
    cases passed.symm.trans passed'
    rw [recorded]
    exact ⟨_, entry, Formula.countUnsat_of_unsatClauses (current passed).unsat⟩
  case solved =>
    intro i le a given none
    obtain ⟨u, t', passed, rfl⟩ := (after i a).mp given
    rw [Formula.countUnsat_of_unsatClauses (current passed).unsat, Except.ok.injEq] at none
    exact Walk.eq_of_satisfied reached passed (List.length_eq_zero_iff.mp none) le
  case satisfied =>
    intro early none_empty
    have early : w.steps < (Walk.start schedule start unsat).steps + schedule.maxSteps := by
      simpa [Walk.start, Walk.toRun] using early
    obtain ⟨s₂, stepped⟩ := Walk.gave_up_of_lt extended early
    have none := (satisfied_iff_of_step (current reached).size (current reached).unsat stepped).mpr
      none_empty
    show f.countUnsat w.assignment = .ok 0
    rw [Formula.countUnsat_of_unsatClauses (current reached).unsat, none]
    rfl

end Anneal

end SatLab.Annealing
