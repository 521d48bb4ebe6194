import Mathlib.Algebra.Group.Nat.Defs
import Mathlib.Data.List.Nodup
import SatLab.Cnf.Uniform
import SatLab.Proofs.Random.Draw
import SatLab.Random.Script
/-!
What the generator draws, whatever words the source hands out: clauses of three literals over
distinct variables. A formula is refused only for its number of variables, and every formula that
is drawn is well formed.
-/

set_option autoImplicit false
set_option relaxedAutoImplicit false

namespace SatLab.Uniform

open SatLab.Random (WordSource Draw)

/-- A clause of three literals over distinct ones of the variables `1 .. n`. -/
structure OfThree (n : Nat) (c : Clause) : Prop where
  length : c.literals.length = 3
  distinct : (c.literals.map Literal.var).Nodup
  range : ∀ l ∈ c.literals, 0 < l.var ∧ l.var ≤ n

section Draws

variable {σ : Type} [WordSource σ] {n m : Nat}

private theorem var_drawLiteral (place : Nat) (s : σ) :
    ((drawLiteral place : Draw σ Literal) s).1.var = place + 1 := by
  rw [drawLiteral, Random.draw_bind, Random.draw_pure, Literal.var]
  cases ((Random.coin : Draw σ Bool) s).1 <;> simp <;> omega

private theorem vars_drawLiterals (places : List Nat) (s : σ) :
    ((places.mapM drawLiteral : Draw σ (List Literal)) s).1.map Literal.var =
      places.map (· + 1) := by
  induction places generalizing s with
  | nil => rfl
  | cons place places ih =>
    rw [Random.draws_cons, List.map_cons, List.map_cons, var_drawLiteral, ih]

private theorem ofThree_drawClause (enough : 3 ≤ n) (s : σ) :
    OfThree n ((drawClause n : Draw σ Clause) s).1 := by
  obtain ⟨length, distinct, range⟩ := Random.sampleThree_distinct enough s
  rw [drawClause, Random.draw_bind]
  -- from here on the places count, not how they were drawn
  generalize ((Random.sampleThree n : Draw σ (List Nat)) s).1 = places at length distinct range
  generalize ((Random.sampleThree n : Draw σ (List Nat)) s).2 = s'
  rw [Random.draw_bind, Random.draw_pure]
  have vars := vars_drawLiterals places s'
  refine ⟨?_, ?_, fun l member => ?_⟩
  · simpa [length] using congrArg List.length vars
  · rw [vars]
    exact distinct.map (add_left_injective 1)
  · have listed : l.var ∈ places.map (· + 1) := vars ▸ List.mem_map_of_mem member
    obtain ⟨place, drawn, same⟩ := List.mem_map.mp listed
    have below := range place drawn
    omega

private theorem ofThree_drawClauses (enough : 3 ≤ n) {done : List Clause}
    (proper : ∀ c ∈ done, OfThree n c) (s : σ) :
    ((drawClauses n m done : Draw σ (List Clause)) s).1.length = done.length + m ∧
      ∀ c ∈ ((drawClauses n m done : Draw σ (List Clause)) s).1, OfThree n c := by
  induction m generalizing done s with
  | zero =>
    change done.reverse.length = done.length ∧ ∀ c ∈ done.reverse, OfThree n c
    simpa using proper
  | succ m ih =>
    have first := ofThree_drawClause enough s
    rw [drawClauses, Random.draw_bind]
    obtain ⟨length, rest⟩ := ih (List.forall_mem_cons.mpr ⟨first, proper⟩) _
    refine ⟨length.trans ?_, rest⟩
    rw [List.length_cons]
    omega

end Draws

structure Drawn (n m : Nat) (f : Formula) : Prop where
  numVars : f.numVars = n
  size : f.size = m
  enough : 3 ≤ n
  small : n ≤ maxVar
  clauses : ∀ c ∈ f.clauses, OfThree n c

theorem Drawn.wellFormed {n m : Nat} {f : Formula} (drawn : Drawn n m f) : f.WellFormed := by
  intro c member l occurs
  obtain ⟨positive, inside⟩ := (drawn.clauses c member).range l occurs
  have nonzero : l.value ≠ 0 := Int.natAbs_pos.mp positive
  exact ⟨⟨nonzero, Nat.le_trans inside drawn.small⟩, drawn.numVars ▸ inside⟩

theorem Drawn.hasEmptyClause {n m : Nat} {f : Formula} (drawn : Drawn n m f) :
    f.hasEmptyClause = false := by
  rw [Formula.hasEmptyClause, List.any_eq_false]
  intro c member empty
  have three := (drawn.clauses c member).length
  rw [List.isEmpty_iff.mp empty] at three
  cases three

section Generate

variable {σ : Type} [WordSource σ] {n m : Nat}

private theorem generate_returns (enough : 3 ≤ n) (small : n ≤ maxVar) (s : σ) :
    ∃ f s', generate n m s = .ok (f, s') ∧ Drawn n m f := by
  have proper : ∀ c ∈ ([] : List Clause), OfThree n c := by simp
  obtain ⟨length, proper⟩ := ofThree_drawClauses (m := m) enough proper s
  rw [generate, if_neg (by omega), if_neg (by omega)]
  exact ⟨_, _, rfl, rfl, by simpa [Formula.size] using length, enough, small, proper⟩

theorem drawn_of_generate {f : Formula} {s s' : σ} (generated : generate n m s = .ok (f, s')) :
    Drawn n m f := by
  by_cases enough : 3 ≤ n
  · by_cases small : n ≤ maxVar
    · obtain ⟨f', s'', returned, drawn⟩ := generate_returns enough small s
      cases generated.symm.trans returned
      exact drawn
    · rw [generate, if_neg (by omega), if_pos (by omega)] at generated
      cases generated
  · rw [generate, if_pos (by omega)] at generated
    cases generated

end Generate

section Seed

variable {n : Nat} {alpha : Float} {seed : Seed}

theorem drawn_of_ofSeed {f : Formula} (generated : ofSeed n alpha seed = .ok f) :
    Drawn n (clauseCount n alpha) f := by
  unfold ofSeed generateAt at generated
  split at generated
  · cases generated
  · cases drawn : generate n (clauseCount n alpha) (Random.KeyStream.ofSeed seed) with
    | error e =>
      rw [drawn] at generated
      cases generated
    | ok p =>
      rw [drawn] at generated
      cases generated
      exact drawn_of_generate drawn

theorem ofSeed_returns (enough : 3 ≤ n) (small : n ≤ maxVar) (finite : alpha.isFinite = true)
    (nonnegative : ¬ alpha < 0.0) : ∃ f, ofSeed n alpha seed = .ok f := by
  obtain ⟨f, s', generated, -⟩ :=
    generate_returns (m := clauseCount n alpha) enough small (Random.KeyStream.ofSeed seed)
  refine ⟨f, ?_⟩
  rw [ofSeed, generateAt, if_neg (by simp [finite, nonnegative]), generated]
  rfl

end Seed

section Exact

variable {σ : Type} [WordSource σ]

/-- Whatever words the source hands out, from three variables on a formula with the number of
clauses asked for is drawn. Its clauses have three literals over distinct variables, and the check
of a literal's range lets each of them pass. Too few variables are reported exactly below three. -/
theorem generate_exact (n m : Nat) (s : σ) :
    (3 ≤ n → n ≤ maxVar → ∃ f s', generate n m s = .ok (f, s') ∧ f.numVars = n ∧ f.size = m ∧
      ∀ c ∈ f.clauses, OfThree n c ∧
        ∀ l ∈ c.literals, Literal.ofVar l.var l.isPositive = .ok l) ∧
    ∀ k, generate n m s = .error (.tooFewVariables k) ↔ n < 3 ∧ k = n := by
  constructor
  · intro enough small
    obtain ⟨f, s', generated, drawn⟩ := generate_returns (m := m) enough small s
    refine ⟨f, s', generated, drawn.numVars, drawn.size, fun c member => ?_⟩
    refine ⟨drawn.clauses c member, fun l occurs => ?_⟩
    exact Literal.ofVar_of_valid (drawn.wellFormed c member l occurs).1
  · intro k
    by_cases few : n < 3
    · simp [generate, few, eq_comm]
    · by_cases large : maxVar < n
      · simp [generate, few, large]
      · obtain ⟨f, s', generated, -⟩ :=
          generate_returns (m := m) (Nat.not_lt.mp few) (Nat.not_lt.mp large) s
        simp [generated, few]

end Exact

/-- Words for a clause over three variables in which both later places collide with an earlier one,
and the carry of the last draw is rounded up. -/
def collidingWords : Random.Script :=
  ⟨#[0, 0, 0x55555555, 0xFFFFFFFF, 0, 0, 0, 0x80000000, 0, 0], by decide, 0⟩

/-- The collisions leave all three variables in the clause, and a clause may be drawn twice. -/
theorem collided_generated :
    ∃ f s', generate 3 2 collidingWords = .ok (f, s') ∧
      f.clauses = [⟨[⟨3⟩, ⟨-1⟩, ⟨2⟩]⟩, ⟨[⟨3⟩, ⟨-1⟩, ⟨2⟩]⟩] ∧ ∀ c ∈ f.clauses, OfThree 3 c := by
  obtain ⟨f, s', generated, -, -, shape⟩ :=
    (generate_exact 3 2 collidingWords).1 (Nat.le_refl 3) (by decide)
  have observed : ((generate 3 2 collidingWords).toOption.map fun p => p.1.clauses) =
      some [⟨[⟨3⟩, ⟨-1⟩, ⟨2⟩]⟩, ⟨[⟨3⟩, ⟨-1⟩, ⟨2⟩]⟩] := by
    decide +kernel
  rw [generated] at observed
  exact ⟨f, s', generated, Option.some.inj observed, fun c member => (shape c member).1⟩

end SatLab.Uniform
