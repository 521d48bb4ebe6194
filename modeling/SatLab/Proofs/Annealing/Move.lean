import SatLab.Proofs.Annealing.Step
import SatLab.Proofs.Cnf.Degree
import SatLab.Proofs.Cnf.Forcing
import SatLab.Proofs.Cnf.Locality
import SatLab.Random.Script
/-!
The record of one annealing step. The change of energy is that of the candidate, whatever is decided
about it, and lies between two bounds that the degree of the variable sets; the assignment and the
falsified clauses are those after the decision.
-/

set_option autoImplicit false
set_option relaxedAutoImplicit false

namespace SatLab.Annealing

open SatLab.Random (WordSource Draw)

section Decision

variable {σ : Type} [WordSource σ] {delta : Int} {temperature : Float}

private theorem Acceptance.accepts_of_neg (rule : Acceptance) (improves : delta < 0) (s : σ) :
    (rule.accepts delta temperature : Draw σ Bool) s = (true, s) := by
  unfold accepts
  rw [if_pos improves]
  rfl

private theorem Acceptance.accepts_cold (cold : temperature ≤ 0.0) (worsens : ¬ delta < 0) (s : σ) :
    (Acceptance.metropolis.accepts delta temperature : Draw σ Bool) s = (false, s) := by
  unfold accepts
  rw [if_neg worsens, if_pos cold]
  rfl

end Decision

/-- What the record of a move says, when the clause `c` was drawn. -/
structure Move.Exact (f : Formula) (a : Assignment) (unsat : List Nat) (temperature : Float)
    (rule : Acceptance) (c : Clause) (m : Move) : Prop where
  occurs : ∃ l ∈ c.literals, l.var = m.flippedVar
  falsified : c.isSatisfiedBy a = .ok false
  change : ∃ turned before after, a.flip m.flippedVar = .ok turned ∧
    f.countUnsat a = .ok before ∧ f.countUnsat turned = .ok after ∧
    m.delta = (after : Int) - before ∧ c.isSatisfiedBy turned = .ok true ∧
    (m.accepted = true → m.assignment = turned)
  bounds : ∃ degrees d, f.degrees = .ok degrees ∧ degrees[m.flippedVar - 1]? = some d ∧
    -(d : Int) ≤ m.delta ∧ m.delta ≤ d - 2
  improving : m.delta < 0 → m.accepted = true
  cold : rule = .metropolis → temperature ≤ 0.0 → m.accepted = true → m.delta < 0
  values : ∀ v, 0 < v → v ≤ f.numVars →
    (m.assignment.value v ≠ a.value v ↔ m.accepted = true ∧ v = m.flippedVar)
  refused : m.accepted = false → m.assignment = a ∧ m.unsat = unsat
  current : f.unsatClauses m.assignment = .ok m.unsat

section Record

variable {σ : Type} [WordSource σ] {f : Formula} {a : Assignment} {unsat : List Nat}
  {temperature : Float} {rule : Acceptance} {s s' : σ} {place : Nat} {c : Clause} {l : Literal}
  {m : Move}

theorem Move.Drawn.occurs (drawn : m.Drawn f a unsat temperature rule s s' place c l) :
    l ∈ c.literals ∧ l.var = m.flippedVar := by
  obtain ⟨s₁, s₂, -, picked, -⟩ := drawn.clause
  exact ⟨Random.mem_of_pick picked, drawn.flipped.symm⟩

theorem Move.Drawn.falsified (evaluated : f.unsatClauses a = .ok unsat)
    (drawn : m.Drawn f a unsat temperature rule s s' place c l) : c.Falsified a := by
  obtain ⟨s₁, s₂, picked, -, -⟩ := drawn.clause
  obtain ⟨rfl, -⟩ := Formula.unsatClauses_eq_ok_iff.mp evaluated
  obtain ⟨d, found, none⟩ := Formula.mem_falsified.mp (Random.mem_of_pick picked)
  obtain rfl := Option.some.inj (found.symm.trans drawn.found)
  exact none

private theorem Move.Drawn.improving (drawn : m.Drawn f a unsat temperature rule s s' place c l)
    (improves : m.delta < 0) : m.accepted = true := by
  obtain ⟨s₁, s₂, -, -, decided⟩ := drawn.clause
  rw [rule.accepts_of_neg improves] at decided
  exact (congrArg Prod.fst decided).symm

private theorem Move.Drawn.cold (drawn : m.Drawn f a unsat temperature .metropolis s s' place c l)
    (cold : temperature ≤ 0.0) (accepted : m.accepted = true) : m.delta < 0 := by
  obtain ⟨s₁, s₂, -, -, decided⟩ := drawn.clause
  by_contra worsens
  rw [Acceptance.accepts_cold cold worsens, accepted] at decided
  cases decided

theorem Move.Follows.values (follows : m.Follows f a unsat) {v : Nat} (positive : 0 < v)
    (bound : v ≤ a.size) :
    m.assignment.value v ≠ a.value v ↔ m.accepted = true ∧ v = m.flippedVar := by
  rcases follows.cases with ⟨taken, flipped, -⟩ | ⟨left, same, -⟩
  · obtain ⟨b, value⟩ := a.exists_value positive bound
    rw [Assignment.value_of_flip flipped, value]
    by_cases here : v = m.flippedVar <;> simp [here, taken, Except.map]
  · simp [left, same]

theorem Move.Drawn.exact (wellFormed : f.WellFormed) (size : a.size = f.numVars)
    (evaluated : f.unsatClauses a = .ok unsat)
    (drawn : m.Drawn f a unsat temperature rule s s' place c l) :
    m.Exact f a unsat temperature rule c := by
  obtain ⟨occurs, here⟩ := drawn.occurs
  have none := drawn.falsified evaluated
  have member := List.mem_of_getElem? drawn.found
  obtain ⟨turned, turnedUnsat, computed, delta, result⟩ := drawn.effect
  obtain ⟨flipped, evaluated'⟩ := candidate_eq_ok_iff.mp computed
  have mentions : c.Mentions m.flippedVar := ⟨l, occurs, here⟩
  have mended := Clause.not_falsified_of_flip flipped mentions none
  obtain ⟨places, decided⟩ := Formula.unsatClauses_eq_ok_iff.mp evaluated
  obtain ⟨places', decided'⟩ := Formula.unsatClauses_eq_ok_iff.mp evaluated'
  refine ⟨⟨l, occurs, here⟩, ?_, ?_, ?_, drawn.improving, ?_, ?_, ?_, ?_⟩
  · rw [decided c member, decide_eq_true none]
    rfl
  · refine ⟨turned, unsat.length, turnedUnsat.length, flipped,
      Formula.countUnsat_of_unsatClauses evaluated, Formula.countUnsat_of_unsatClauses evaluated',
      delta, ?_, fun accepted => ?_⟩
    · rw [decided' c member, decide_eq_false mended]
      rfl
    · rw [accepted, if_pos rfl, Prod.mk.injEq] at result
      exact result.1
  · obtain ⟨degrees, counted, -, entry⟩ := Formula.degrees_of_wellFormed wellFormed
    obtain ⟨positive, bound⟩ := Assignment.range_of_flip flipped
    obtain ⟨fall, rise⟩ := Formula.length_falsified_of_flip flipped member none mentions
    rw [← places, ← places'] at fall rise
    have given := entry m.flippedVar positive (bound.trans size.le)
    refine ⟨degrees, _, counted, given, ?_, ?_⟩ <;> omega
  · rintro rfl cold accepted
    exact drawn.cold cold accepted
  · intro v positive bound
    exact drawn.follows.values positive (bound.trans size.ge)
  · intro left
    rw [left, if_neg Bool.false_ne_true, Prod.mk.injEq] at result
    exact result
  · rcases drawn.follows.cases with ⟨-, -, current⟩ | ⟨-, same, same'⟩
    · exact current
    · rw [same, same']
      exact evaluated

/-- A step from an assignment to the variables of a well-formed formula and the clauses that it
falsifies returns, and a move that it makes records exactly what it does. It has drawn a falsified
clause and a literal in it. The change recorded is that of the number of falsified clauses when the
variable of the literal is turned over; the clause drawn becomes true then, so that the change is at
least minus the degree of the variable and at most the degree minus two. A change below zero is
always taken, and by the Metropolis rule at temperature zero nothing else is. A move that is taken
turns that variable over and no other, any other one leaves the assignment and its falsified clauses
as they were; the falsified clauses recorded are always those of the assignment recorded. -/
theorem step_exact (wellFormed : f.WellFormed) (size : a.size = f.numVars)
    (evaluated : f.unsatClauses a = .ok unsat) (temperature : Float) (rule : Acceptance) (s : σ) :
    ∃ outcome s', step f a unsat temperature rule s = (.ok outcome, s') ∧
      ∀ m, outcome = .moved m → ∃ place c l, m.Drawn f a unsat temperature rule s s' place c l ∧
        m.Exact f a unsat temperature rule c := by
  have current := Formula.unsatClauses_of_wellFormed wellFormed size
  cases evaluated.symm.trans current
  obtain ⟨outcome, s', stepped⟩ := step_returns wellFormed size temperature rule s
  refine ⟨outcome, s', stepped, ?_⟩
  rintro m rfl
  rcases step_draws stepped with impossible | ⟨m', place, c, l, same, drawn⟩
  · cases impossible
  · cases same
    exact ⟨place, c, l, drawn, drawn.exact wellFormed size evaluated⟩

end Record

/-- A variable that has to be true, although two clauses are lost with it. -/
def toll : Formula := ⟨2, [⟨[⟨1⟩]⟩, ⟨[⟨-1⟩, ⟨2⟩]⟩, ⟨[⟨-1⟩, ⟨2⟩]⟩]⟩

/-- A move that is taken although it is as bad as one can be. -/
theorem toll_moved : ∃ s' : Random.Script, ∃ m : Move,
    step toll ⟨#[false, false]⟩ [0] 0.0 (.lenient 0.5) ⟨#[0], by decide, 0⟩ =
      (.ok (.moved m), s') ∧ m.flippedVar = 1 ∧ m.delta = 1 ∧ m.unsat = [1, 2] ∧
      ∃ place c l, m.Drawn toll ⟨#[false, false]⟩ [0] 0.0 (.lenient 0.5) ⟨#[0], by decide, 0⟩ s'
          place c l ∧
        m.Exact toll ⟨#[false, false]⟩ [0] 0.0 (.lenient 0.5) c := by
  have wellFormed : toll.WellFormed := by decide
  have evaluated : toll.unsatClauses ⟨#[false, false]⟩ = .ok [0] := rfl
  have outcome : (step toll ⟨#[false, false]⟩ [0] 0.0 (.lenient 0.5)
      (⟨#[0], by decide, 0⟩ : Random.Script)).1 =
        .ok (.moved ⟨⟨#[true, false]⟩, [1, 2], 1, true, 1⟩) :=
    ok_of_toOption (by decide +kernel)
  obtain ⟨_, s', stepped, exact⟩ :=
    step_exact wellFormed rfl evaluated 0.0 (.lenient 0.5) (⟨#[0], by decide, 0⟩ : Random.Script)
  cases outcome.symm.trans (congrArg Prod.fst stepped)
  exact ⟨s', _, stepped, rfl, rfl, rfl, exact _ rfl⟩

end SatLab.Annealing
