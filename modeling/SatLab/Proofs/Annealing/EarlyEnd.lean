import SatLab.Proofs.Annealing.Run
/-!
Runs that end before their step limit. A step gives up when no clause is falsified, and also when
the clause that it drew has no literal to turn over; a run ends with the first step that gives up.
So an early end means a satisfying assignment only where the formula has no empty clause.
-/

set_option autoImplicit false
set_option relaxedAutoImplicit false

namespace SatLab

namespace Formula

variable {f : Formula} {a : Assignment} {unsat : List Nat}

private theorem hasEmptyClause_iff : f.hasEmptyClause = true ↔ ⟨[]⟩ ∈ f.clauses := by
  simp only [hasEmptyClause, Clause.isEmpty, List.any_eq_true, List.isEmpty_iff]
  constructor
  · rintro ⟨⟨ls⟩, member, rfl⟩
    exact member
  · intro member
    exact ⟨⟨[]⟩, member, rfl⟩

private theorem unsat_ne_nil_of_hasEmptyClause (evaluated : f.unsatClauses a = .ok unsat)
    (empty : f.hasEmptyClause = true) : unsat ≠ [] := by
  obtain ⟨rfl, -⟩ := unsatClauses_eq_ok_iff.mp evaluated
  obtain ⟨place, found⟩ := List.mem_iff_getElem?.mp (hasEmptyClause_iff.mp empty)
  have listed : place ∈ f.falsified a := mem_falsified.mpr ⟨⟨[]⟩, found, by simp [Clause.Falsified]⟩
  exact List.ne_nil_of_mem listed

end Formula

namespace Annealing

open SatLab.Random (WordSource Draw)

variable {σ : Type} [WordSource σ] {f : Formula} {a : Assignment} {unsat : List Nat}
  {temperature : Float} {rule : Acceptance} {s s' : σ}

private theorem step_eq_alreadySatisfied_iff (size : a.size = f.numVars) :
    step f a unsat temperature rule s = (.ok .alreadySatisfied, s') ↔
      unsat = [] ∧ s' = s ∨ ∃ place,
        (Random.pick unsat : Draw σ (Option Nat)) s = (some place, s') ∧
          f.clauses[place]? = some ⟨[]⟩ := by
  rw [step, if_neg (not_not_intro size)]
  constructor
  · intro stepped
    split at stepped
    · next s₁ drawn =>
      cases stepped
      exact .inl (Random.pick_eq_none_iff.mp drawn)
    · next place s₁ drawn =>
      split at stepped
      · cases stepped
      · next c found =>
        split at stepped
        · next s₂ literal =>
          cases stepped
          obtain ⟨none, rfl⟩ := Random.pick_eq_none_iff.mp literal
          obtain rfl : c = ⟨[]⟩ := congrArg Clause.mk none
          exact .inr ⟨place, drawn, found⟩
        · -- a literal was drawn, and what is proposed for it is a move or an error
          unfold propose at stepped
          split at stepped
          · cases stepped
          · cases stepped
  · rintro (⟨rfl, rfl⟩ | ⟨place, drawn, found⟩)
    · rfl
    · rw [drawn]
      dsimp only
      rw [found]
      rfl

theorem satisfied_iff_of_step (size : a.size = f.numVars) (evaluated : f.unsatClauses a = .ok unsat)
    (stepped : step f a unsat temperature rule s = (.ok .alreadySatisfied, s')) :
    unsat = [] ↔ f.hasEmptyClause = false := by
  constructor
  · intro none
    rw [← Bool.not_eq_true]
    intro empty
    exact Formula.unsat_ne_nil_of_hasEmptyClause evaluated empty none
  · intro none_empty
    rcases (step_eq_alreadySatisfied_iff size).mp stepped with ⟨none, -⟩ | ⟨place, -, found⟩
    · exact none
    · have empty := Formula.hasEmptyClause_iff.mpr (List.mem_of_getElem? found)
      cases none_empty.symm.trans empty

theorem Walk.gave_up_of_lt {schedule : Schedule} {budget : Nat} {w w' : Walk} {sig sig' : Signal}
    (ran : extend f schedule budget w s sig = .ok ((w', s'), sig'))
    (early : w'.steps < w.steps + budget) :
    ∃ s₁, step f w'.assignment w'.unsat w'.temperature schedule.acceptance s₁ =
      (.ok .alreadySatisfied, s') := by
  induction budget generalizing w s sig with
  | zero =>
    cases ran
    omega
  | succ budget ih =>
    rcases extend_cases ran with ⟨rfl, stepped⟩ | ⟨m, s₁, -, later⟩
    · exact ⟨s, stepped⟩
    · apply ih later
      simp only [advance]
      omega

/-- When the search is over before its step limit. A step gives up exactly when no clause is
falsified or the falsified clause that it drew is empty, and every run that ends early without an
error ends with such a step. What stands then satisfies the formula exactly if the formula has no
empty clause. -/
theorem early_end_satisfied_iff (f : Formula) :
    (∀ (a : Assignment) (unsat : List Nat) (temperature : Float) (rule : Acceptance) (s s' : σ),
      a.size = f.numVars → f.unsatClauses a = .ok unsat →
        (step f a unsat temperature rule s = (.ok .alreadySatisfied, s') ↔
          unsat = [] ∧ s' = s ∨ ∃ place,
            (Random.pick unsat : Draw σ (Option Nat)) s = (some place, s') ∧
              f.clauses[place]? = some ⟨[]⟩) ∧
        (step f a unsat temperature rule s = (.ok .alreadySatisfied, s') →
          (f.countUnsat a = .ok 0 ↔ f.hasEmptyClause = false))) ∧
    ∀ (start : Assignment) (schedule : Schedule) (s s' : σ) (sig sig' : Signal) (r : Run),
      annealFrom f start schedule s sig = .ok ((r, s'), sig') → r.steps < schedule.maxSteps →
        (r.finalEnergy = 0 ↔ f.hasEmptyClause = false) := by
  constructor
  · intro a unsat temperature rule s s' size evaluated
    refine ⟨step_eq_alreadySatisfied_iff size, fun stepped => ?_⟩
    rw [← satisfied_iff_of_step size evaluated stepped,
      Formula.countUnsat_of_unsatClauses evaluated, Except.ok.injEq, List.length_eq_zero_iff]
  · intro start schedule s s' sig sig' r ran early
    obtain ⟨size, unsat, w, evaluated, rfl, extended⟩ := walk_of_annealFrom ran
    have current : w.Current f := (Walk.extend_induction (fun w m kept follows =>
      Walk.Current.advance kept follows) (Walk.current_start size evaluated) extended).1
    have short : w.steps < (Walk.start schedule start unsat).steps + schedule.maxSteps := by
      simpa [Walk.start, Walk.toRun] using early
    obtain ⟨s₁, stepped⟩ := Walk.gave_up_of_lt extended short
    rw [← satisfied_iff_of_step current.size current.unsat stepped]
    exact List.length_eq_zero_iff

/-- A variable that has to be true beside a clause that nothing makes true. -/
def blocked : Formula := ⟨1, [⟨[]⟩, ⟨[⟨1⟩]⟩]⟩

/-- Words that draw the first one of two clauses. -/
def firstWords : Random.Script := ⟨#[0], by decide, 0⟩

/-- The empty clause is drawn: the step gives up although both clauses are falsified, and the run
ends before the only step that it may take. -/
theorem blocked_ends_early :
    (∃ s', step blocked ⟨#[false]⟩ [0, 1] 1.0 .metropolis firstWords = (.ok .alreadySatisfied, s') ∧
      ¬ blocked.countUnsat ⟨#[false]⟩ = .ok 0) ∧
    ∃ r s', annealFrom blocked ⟨#[false]⟩ { maxSteps := 1 } firstWords .never =
        .ok ((r, s'), .never) ∧ r.steps < 1 ∧ r.finalEnergy ≠ 0 := by
  have empty : blocked.hasEmptyClause ≠ false := by decide
  obtain ⟨stepwise, whole⟩ := early_end_satisfied_iff (σ := Random.Script) blocked
  constructor
  · obtain ⟨exact, satisfied⟩ := stepwise ⟨#[false]⟩ [0, 1] 1.0 .metropolis firstWords
      { firstWords with used := 1 } rfl (by decide)
    have gave_up := exact.mpr (.inr ⟨0, rfl, rfl⟩)
    exact ⟨_, gave_up, mt (satisfied gave_up).mp empty⟩
  · have ran : annealFrom blocked ⟨#[false]⟩ { maxSteps := 1 } firstWords .never =
        .ok (((Walk.start { maxSteps := 1 } ⟨#[false]⟩ [0, 1]).toRun,
          { firstWords with used := 1 }), .never) := by
      rfl
    have early : (Walk.start { maxSteps := 1 } ⟨#[false]⟩ [0, 1]).toRun.steps < 1 := by decide
    refine ⟨_, _, ran, early, ?_⟩
    exact mt (whole ⟨#[false]⟩ { maxSteps := 1 } _ _ _ _ _ ran early).mp empty

end Annealing

end SatLab
