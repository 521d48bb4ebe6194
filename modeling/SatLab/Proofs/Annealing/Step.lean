import SatLab.Annealing.Step
import SatLab.Proofs.Cnf.Falsified
import SatLab.Proofs.Random.Draw
/-!
What one annealing step can do, whatever the draws and whatever the decision: it turns over the
variable of a literal in a falsified clause, or leaves the assignment alone. From an assignment to
the variables of a well-formed formula a step never fails.
-/

set_option autoImplicit false
set_option relaxedAutoImplicit false

namespace SatLab.Annealing

open SatLab.Random (WordSource Draw)

/-- A move that can be made from an assignment and the places of the clauses it falsifies. -/
structure Move.Follows (f : Formula) (a : Assignment) (unsat : List Nat) (m : Move) : Prop where
  drawn : ∃ place ∈ unsat, ∃ c, f.clauses[place]? = some c ∧ ∃ l ∈ c.literals, l.var = m.flippedVar
  effect : ∃ turned turnedUnsat, candidate f a m.flippedVar = .ok (turned, turnedUnsat) ∧
    m.delta = (turnedUnsat.length : Int) - unsat.length ∧
    (m.assignment, m.unsat) = if m.accepted then (turned, turnedUnsat) else (a, unsat)

section Step

variable {σ : Type} [WordSource σ] {f : Formula} {a : Assignment} {unsat : List Nat}
  {temperature : Float} {rule : Acceptance} {s : σ}

theorem candidate_eq_ok_iff {v : Nat} {turned : Assignment} {turnedUnsat : List Nat} :
    candidate f a v = .ok (turned, turnedUnsat) ↔
      a.flip v = .ok turned ∧ f.unsatClauses turned = .ok turnedUnsat := by
  unfold candidate
  cases a.flip v with
  | error e => simp
  | ok other =>
    cases computed : f.unsatClauses other with
    | error e =>
      simp only [ok_bind, computed, error_bind, reduceCtorEq, Except.ok.injEq, false_iff]
      rintro ⟨rfl, impossible⟩
      simp [computed] at impossible
    | ok places =>
      simp only [ok_bind, computed, pure_eq_ok, Except.ok.injEq, Prod.mk.injEq]
      constructor
      · rintro ⟨rfl, rfl⟩
        exact ⟨rfl, computed⟩
      · rintro ⟨rfl, same⟩
        exact ⟨rfl, Except.ok.inj (computed.symm.trans same)⟩

/-- The draws and the decision behind a move: a clause, a literal in it, and whether the rule takes
the change of energy that turning its variable over would make. -/
structure Move.Drawn (f : Formula) (a : Assignment) (unsat : List Nat) (temperature : Float)
    (rule : Acceptance) (s s' : σ) (place : Nat) (c : Clause) (l : Literal) (m : Move) : Prop where
  clause : ∃ s₁ s₂ : σ, (Random.pick unsat : Draw σ (Option Nat)) s = (some place, s₁) ∧
    (Random.pick c.literals : Draw σ (Option Literal)) s₁ = (some l, s₂) ∧
    (rule.accepts m.delta temperature : Draw σ Bool) s₂ = (m.accepted, s')
  found : f.clauses[place]? = some c
  flipped : m.flippedVar = l.var
  effect : ∃ turned turnedUnsat, candidate f a m.flippedVar = .ok (turned, turnedUnsat) ∧
    m.delta = (turnedUnsat.length : Int) - unsat.length ∧
    (m.assignment, m.unsat) = if m.accepted then (turned, turnedUnsat) else (a, unsat)

theorem step_draws {outcome : StepOutcome} {s' : σ}
    (stepped : step f a unsat temperature rule s = (.ok outcome, s')) :
    outcome = .alreadySatisfied ∨ ∃ m place c l, outcome = .moved m ∧
      m.Drawn f a unsat temperature rule s s' place c l := by
  unfold step at stepped
  split at stepped
  · cases stepped
  · split at stepped
    · cases stepped
      exact .inl rfl
    · next place s₁ pickedPlace =>
      split at stepped
      · cases stepped
      · next c found =>
        split at stepped
        · cases stepped
          exact .inl rfl
        · next l s₂ pickedLiteral =>
          unfold propose at stepped
          split at stepped
          · cases stepped
          · next turned turnedUnsat computed =>
            cases stepped
            refine .inr ⟨_, place, c, l, rfl, ⟨s₁, s₂, pickedPlace, pickedLiteral, rfl⟩, found, rfl,
              turned, turnedUnsat, computed, rfl, ?_⟩
            -- The decision may be either one: nothing is asked of it.
            generalize (rule.accepts _ temperature s₂) = decision
            rfl

theorem Move.Drawn.follows {s' : σ} {place : Nat} {c : Clause} {l : Literal} {m : Move}
    (drawn : m.Drawn f a unsat temperature rule s s' place c l) : m.Follows f a unsat := by
  obtain ⟨s₁, s₂, pickedPlace, pickedLiteral, -⟩ := drawn.clause
  refine ⟨⟨place, Random.mem_of_pick pickedPlace, c, drawn.found, l, ?_, ?_⟩, drawn.effect⟩
  · exact Random.mem_of_pick pickedLiteral
  · exact drawn.flipped.symm

theorem step_cases {outcome : StepOutcome} {s' : σ}
    (stepped : step f a unsat temperature rule s = (.ok outcome, s')) :
    outcome = .alreadySatisfied ∨ ∃ m, outcome = .moved m ∧ m.Follows f a unsat := by
  rcases step_draws stepped with done | ⟨m, place, c, l, moved, drawn⟩
  · exact .inl done
  · exact .inr ⟨m, moved, drawn.follows⟩

theorem follows_of_step {m : Move} {s' : σ}
    (stepped : step f a unsat temperature rule s = (.ok (.moved m), s')) : m.Follows f a unsat := by
  rcases step_cases stepped with impossible | ⟨m', same, follows⟩
  · cases impossible
  · cases same
    exact follows

end Step

theorem Move.Follows.cases {f : Formula} {a : Assignment} {unsat : List Nat} {m : Move}
    (follows : m.Follows f a unsat) :
    (m.accepted = true ∧ a.flip m.flippedVar = .ok m.assignment ∧
        f.unsatClauses m.assignment = .ok m.unsat) ∨
      (m.accepted = false ∧ m.assignment = a ∧ m.unsat = unsat) := by
  obtain ⟨turned, turnedUnsat, computed, -, result⟩ := follows.effect
  obtain ⟨flipped, evaluated⟩ := candidate_eq_ok_iff.mp computed
  cases taken : m.accepted with
  | true =>
    rw [taken, if_pos rfl, Prod.mk.injEq] at result
    exact .inl ⟨rfl, result.1 ▸ flipped, result.1 ▸ result.2 ▸ evaluated⟩
  | false =>
    rw [taken, if_neg Bool.false_ne_true, Prod.mk.injEq] at result
    exact .inr ⟨rfl, result⟩

section WellFormed

variable {σ : Type} [WordSource σ] {f : Formula} {a : Assignment}

/-- From an assignment to the variables of a well-formed formula, with the clauses that it
falsifies, a step does not fail. -/
theorem step_returns (wellFormed : f.WellFormed) (size : a.size = f.numVars) (temperature : Float)
    (rule : Acceptance) (s : σ) :
    ∃ outcome s', step f a (f.falsified a) temperature rule s = (.ok outcome, s') := by
  unfold step
  rw [if_neg (not_not_intro size)]
  split
  · exact ⟨_, _, rfl⟩
  · next place s₁ pickedPlace =>
    obtain ⟨c, found, -⟩ := Formula.mem_falsified.mp (Random.mem_of_pick pickedPlace)
    rw [found]
    dsimp only
    split
    · exact ⟨_, _, rfl⟩
    · next l s₂ pickedLiteral =>
      obtain ⟨positive, bound⟩ := wellFormed.covered size (List.mem_of_getElem? found) l
        (Random.mem_of_pick pickedLiteral)
      obtain ⟨turned, flipped⟩ := Assignment.exists_flip positive bound
      have covers : turned.size = f.numVars := (Assignment.size_of_flip flipped).trans size
      have evaluated := Formula.unsatClauses_of_wellFormed wellFormed covers
      rw [propose, candidate_eq_ok_iff.mpr ⟨flipped, evaluated⟩]
      exact ⟨_, _, rfl⟩

end WellFormed

end SatLab.Annealing
