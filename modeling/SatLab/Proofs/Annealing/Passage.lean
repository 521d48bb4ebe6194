import Mathlib.Algebra.Order.BigOperators.Group.List
import Mathlib.Algebra.Order.Group.Nat
import SatLab.Proofs.Annealing.Report
import SatLab.Proofs.Trial.Stopped
/-!
The walks that an annealing run passes through. In each of them the next step returns, the variable
of its move has an entry in the table of turns, and the counters stay within the step limit.
-/

set_option autoImplicit false
set_option relaxedAutoImplicit false

namespace SatLab.Annealing

open SatLab.Random (WordSource Draw)

/-- The walks that a run from `start` passes through, with the number of steps that are still
allowed. Each move may be made with any words. -/
inductive Walk.Passed (σ : Type) [WordSource σ] (f : Formula) (schedule : Schedule)
    (start : Assignment) : Nat → Walk → Prop
  | start {unsat : List Nat} (evaluated : f.unsatClauses start = .ok unsat) :
      Passed σ f schedule start schedule.maxSteps (.start schedule start unsat)
  | move {left : Nat} {w : Walk} {m : Move} {s s' : σ}
      (passed : Passed σ f schedule start (left + 1) w)
      (stepped : step f w.assignment w.unsat w.temperature schedule.acceptance s =
        (.ok (.moved m), s')) :
      Passed σ f schedule start left (w.advance schedule m)

/-- A walk from which `left` steps are allowed stays within the tables of a formula and the
counters of a step limit, and so does its next step. -/
structure Walk.Within (σ : Type) [WordSource σ] (f : Formula) (schedule : Schedule) (left : Nat)
    (w : Walk) : Prop where
  places : ∀ place ∈ w.unsat, place < f.size
  steps : w.steps + left = schedule.maxSteps
  moves : w.acceptedMoves ≤ w.steps
  counts : ∀ count ∈ w.flipCounts, count ≤ w.acceptedMoves
  returns : ∀ s : σ, ∃ outcome s',
    step f w.assignment w.unsat w.temperature schedule.acceptance s = (.ok outcome, s')
  turned : ∀ (s s' : σ) (m : Move),
    step f w.assignment w.unsat w.temperature schedule.acceptance s = (.ok (.moved m), s') →
      0 < m.flippedVar ∧ m.flippedVar - 1 < w.flipCounts.size

section Passed

variable {σ : Type} [WordSource σ] {f : Formula} {schedule : Schedule} {start : Assignment}
  {left : Nat} {w : Walk}

theorem Walk.Passed.kept (wellFormed : f.WellFormed) (size : start.size = f.numVars)
    (passed : Passed σ f schedule start left w) :
    w.Kept f start (f.falsified start).length ∧ w.steps + left = schedule.maxSteps := by
  induction passed with
  | start evaluated =>
    cases (Formula.unsatClauses_of_wellFormed wellFormed size).symm.trans evaluated
    refine ⟨⟨current_start size evaluated, tracked_start evaluated, counted_start⟩, ?_⟩
    simp [Walk.start]
  | move passed stepped ih =>
    obtain ⟨kept, total⟩ := ih
    refine ⟨kept.advance size (follows_of_step stepped), ?_⟩
    simp only [advance]
    omega

theorem Walk.Kept.turned {energy : Nat} {m : Move} (wellFormed : f.WellFormed)
    (size : start.size = f.numVars) (kept : w.Kept f start energy)
    (follows : m.Follows f w.assignment w.unsat) :
    0 < m.flippedVar ∧ m.flippedVar - 1 < w.flipCounts.size := by
  obtain ⟨place, -, c, found, l, occurs, same⟩ := follows.drawn
  obtain ⟨valid, bound⟩ := wellFormed c (List.mem_of_getElem? found) l occurs
  have positive := valid.var_pos
  rw [kept.counted.counts, size]
  omega

theorem Walk.Passed.within (wellFormed : f.WellFormed) (size : start.size = f.numVars)
    (passed : Passed σ f schedule start left w) : w.Within σ f schedule left := by
  obtain ⟨kept, total⟩ := passed.kept wellFormed size
  obtain ⟨covers, evaluated⟩ := kept.current
  have falsified := (Formula.unsatClauses_eq_ok_iff.mp evaluated).1
  refine ⟨fun place member => ?_, total, kept.counted.moves_le, fun count member => ?_,
    fun s => ?_, fun s s' m stepped => ?_⟩
  · rw [falsified] at member
    obtain ⟨c, found, -⟩ := Formula.mem_falsified.mp member
    exact (List.getElem?_eq_some_iff.mp found).1
  · rw [kept.counted.moves]
    exact List.le_sum_of_mem (Array.mem_toList_iff.mpr member)
  · rw [falsified]
    exact step_returns wellFormed covers w.temperature schedule.acceptance s
  · exact kept.turned wellFormed size (follows_of_step stepped)

theorem Walk.Passed.extend {s s' : σ} {sig sig' : Signal} {w' : Walk}
    (passed : Passed σ f schedule start left w)
    (ran : Walk.extend f schedule left w s sig = .ok ((w', s'), sig')) :
    ∃ left', Passed σ f schedule start left' w' := by
  induction left generalizing w s sig with
  | zero =>
    cases ran
    exact ⟨0, passed⟩
  | succ left ih =>
    rcases extend_cases ran with ⟨rfl, -⟩ | ⟨m, s₁, stepped, later⟩
    · exact ⟨left + 1, passed⟩
    · exact ih (passed.move stepped) later

theorem passed_of_annealFrom {s s' : σ} {sig sig' : Signal} {r : Run}
    (ran : annealFrom f start schedule s sig = .ok ((r, s'), sig')) :
    ∃ left w, Walk.Passed σ f schedule start left w ∧ r = w.toRun := by
  obtain ⟨-, unsat, w, evaluated, rfl, extended⟩ := walk_of_annealFrom ran
  obtain ⟨left, passed⟩ := (Walk.Passed.start evaluated).extend extended
  exact ⟨left, w, passed, rfl⟩

end Passed

section Stopped

variable {σ : Type} [WordSource σ] {f : Formula} {schedule : Schedule}

theorem annealFrom_reports_or_stops {start : Assignment} (wellFormed : f.WellFormed)
    (size : start.size = f.numVars) (valid : schedule.validate = .ok ()) (s : σ) (sig : Signal) :
    (∃ r s' sig', annealFrom f start schedule s sig = .ok ((r, s'), sig')) ∨
      annealFrom f start schedule s sig = .error .cancelled := by
  obtain ⟨-, -, -, returns⟩ := annealFrom_exact (σ := σ) wellFormed size valid
  obtain ⟨r, s', quiet⟩ := returns s
  have steady : (annealFrom f start schedule s).Steady .cancelled := annealFrom_steady
  rcases steady.ok_or_stopped quiet sig with ⟨sig', ran⟩ | cut
  · exact .inl ⟨r, s', sig', ran⟩
  · exact .inr cut

theorem exists_start_of_anneal (f : Formula) (schedule : Schedule) (s : σ) :
    ∃ (start : Assignment) (s₁ : σ), start.size = f.numVars ∧
      anneal f schedule s = annealFrom f start schedule s₁ :=
  ⟨_, _, size_drawAssignment f.numVars s, rfl⟩

end Stopped

end SatLab.Annealing
