import SatLab.Proofs.Annealing.Run
import SatLab.Proofs.Random.Draw
/-!
What an anneal from a random assignment reports of the variables of a formula. The best assignment
covers them all, and each has its count of turns.
-/

set_option autoImplicit false
set_option relaxedAutoImplicit false

namespace SatLab.Annealing

open SatLab.Random (WordSource Draw)

section Random

variable {σ : Type} [WordSource σ]

private theorem length_drawBits (items : List Unit) (s : σ) :
    ((items.mapM fun _ => Random.bit : Draw σ (List Bool)) s).1.length = items.length := by
  induction items generalizing s with
  | nil => rfl
  | cons item items ih => rw [Random.draws_cons, List.length_cons, List.length_cons, ih]

theorem size_drawAssignment (n : Nat) (s : σ) :
    ((Uniform.drawAssignment n : Draw σ Assignment) s).1.size = n := by
  rw [Uniform.drawAssignment, Random.draw_bind, Random.draw_pure, Assignment.size,
    List.size_toArray, length_drawBits, List.length_replicate]

end Random

section Run

variable {σ : Type} [WordSource σ] {f : Formula} {schedule : Schedule} {start : Assignment}
  {s s' : σ} {sig sig' : Signal} {r : Run}

private theorem annealFrom_induction {P : Walk → Prop}
    (first : ∀ unsat, f.unsatClauses start = .ok unsat → P (.start schedule start unsat))
    (preserved : ∀ w m, P w → m.Follows f w.assignment w.unsat → P (w.advance schedule m))
    (ran : annealFrom f start schedule s sig = .ok ((r, s'), sig')) : ∃ w, r = w.toRun ∧ P w := by
  obtain ⟨-, unsat, w, evaluated, rfl, extended⟩ := walk_of_annealFrom ran
  exact ⟨w, rfl, (Walk.extend_induction preserved (first unsat evaluated) extended).1⟩

/-- An anneal of a well-formed formula counts the turns of its variables, and its best assignment
covers them and falsifies as many clauses as it says. -/
theorem report_of_anneal (wellFormed : f.WellFormed)
    (ran : anneal f schedule s sig = .ok ((r, s'), sig')) :
    r.flipCounts.size = f.numVars ∧ r.bestAssignment.size = f.numVars ∧
      f.countUnsat r.bestAssignment = .ok r.bestEnergy := by
  unfold anneal at ran
  have size := size_drawAssignment f.numVars s
  rcases drawn : (Uniform.drawAssignment f.numVars : Draw σ Assignment) s with ⟨start, s₁⟩
  rw [drawn] at ran size
  have evaluated := Formula.unsatClauses_of_wellFormed wellFormed size
  obtain ⟨w, rfl, kept, best⟩ := annealFrom_induction
    (P := fun w => w.Kept f start (f.falsified start).length ∧ w.bestAssignment.size = f.numVars)
    (fun unsat computed => by
      cases evaluated.symm.trans computed
      exact ⟨⟨Walk.current_start size evaluated, Walk.tracked_start evaluated,
        Walk.counted_start⟩, size⟩)
    (fun w m ⟨kept, best⟩ follows => by
      have next : (w.advance schedule m).Kept f start _ := kept.advance size follows
      refine ⟨next, ?_⟩
      by_cases improved : m.energy < w.bestEnergy
      · simpa [Walk.advance, improved] using next.current.size
      · simpa [Walk.advance, improved] using best)
    ran
  exact ⟨kept.counted.counts.trans size, best, kept.tracked.best⟩

theorem anneal_returns (wellFormed : f.WellFormed) (valid : schedule.validate = .ok ()) (s : σ) :
    ∃ r s', anneal f schedule s .never = .ok ((r, s'), .never) := by
  unfold anneal
  have size := size_drawAssignment f.numVars s
  rcases drawn : (Uniform.drawAssignment f.numVars : Draw σ Assignment) s with ⟨start, s₁⟩
  rw [drawn] at size
  have evaluated := Formula.unsatClauses_of_wellFormed wellFormed size
  have current : (Walk.start schedule start (f.falsified start)).Current f :=
    Walk.current_start size evaluated
  obtain ⟨w, s', extended⟩ := Walk.extend_returns wellFormed current schedule.maxSteps s₁
  refine ⟨w.toRun, s', ?_⟩
  dsimp only
  rw [annealFrom_eq_extend valid size evaluated, extended, ok_bind]

end Run

end SatLab.Annealing
