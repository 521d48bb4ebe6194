import SatLab.Backbone.Pruning
import SatLab.Proofs.Cnf.Agreement
import SatLab.Proofs.Cnf.Degree
/-!
What an anneal guesses. The guess is a selection of variables of the formula, and the best
assignment of the anneal agrees with it.
-/

set_option autoImplicit false
set_option relaxedAutoImplicit false

namespace SatLab

section Frozen

variable {r : Annealing.Run} {fraction : Float}

private theorem Annealing.Run.pairwise_frozenVars : (r.frozenVars fraction).Pairwise (· < ·) := by
  apply (pairwise_zipIdx r.flipCounts.toList 1).filterMap
  rintro ⟨count, v⟩ ⟨count', w⟩ before p kept q kept'
  dsimp only at before kept kept'
  split at kept <;> split at kept'
  · cases kept
    cases kept'
    exact before
  all_goals simp_all

private theorem Annealing.Run.frozenVars_range {v : Nat} (frozen : v ∈ r.frozenVars fraction) :
    0 < v ∧ v ≤ r.flipCounts.size := by
  obtain ⟨⟨count, w⟩, listed, kept⟩ := List.mem_filterMap.mp frozen
  obtain ⟨low, high, -⟩ := List.mem_zipIdx listed
  dsimp only at kept
  split at kept
  · cases kept
    rw [Array.length_toList] at high
    omega
  · cases kept

end Frozen

namespace Backbone

/-- A guess reads off an assignment: its literals are over the given variables, in their order,
and true. -/
private theorem mapM_literalOf {a : Assignment} {vars : List Nat}
    (covered : ∀ v ∈ vars, 0 < v ∧ v ≤ a.size ∧ v ≤ maxVar) :
    ∃ ls, vars.mapM a.literalOf = .ok ls ∧ ls.map Literal.var = vars ∧
      (∀ l ∈ ls, l.Valid) ∧ a.Agrees ls := by
  induction vars with
  | nil => exact ⟨[], rfl, rfl, by simp, a.agrees_nil⟩
  | cons v vars ih =>
    obtain ⟨positive, inside, small⟩ := covered v List.mem_cons_self
    obtain ⟨ls, read, named, valid, agrees⟩ :=
      ih fun w member => covered w (List.mem_cons_of_mem v member)
    obtain ⟨b, value⟩ := a.exists_value positive inside
    have first : a.literalOf v = .ok (.signed v b) := by
      rw [Assignment.literalOf, value, ok_bind, Literal.ofVar_eq_signed positive small]
    refine ⟨.signed v b :: ls, ?_, ?_, ?_, ?_⟩
    · rw [List.mapM_cons, first, ok_bind, read, ok_bind]
      rfl
    · rw [List.map_cons, Literal.var_signed, named]
    · exact List.forall_mem_cons.mpr ⟨Literal.valid_signed positive small, valid⟩
    · exact Assignment.agrees_cons.mpr
        ⟨(Assignment.satisfies_signed_iff positive).mpr value, agrees⟩

/-- An anneal that covers the variables of a formula guesses values for some of them, ascending,
that its best assignment has. -/
theorem guess_returns {f : Formula} {run : Annealing.Run} (small : f.numVars ≤ maxVar)
    (counted : run.flipCounts.size = f.numVars) (size : run.bestAssignment.size = f.numVars)
    (fraction : Float) : ∃ ls, guess run fraction = .ok ls ∧
      (ls.map Literal.var).Pairwise (· < ·) ∧ f.Selection ls ∧ run.bestAssignment.Agrees ls := by
  have inside : ∀ v ∈ run.frozenVars fraction, 0 < v ∧ v ≤ f.numVars := fun v frozen =>
    counted ▸ run.frozenVars_range frozen
  have covered : ∀ v ∈ run.frozenVars fraction,
      0 < v ∧ v ≤ run.bestAssignment.size ∧ v ≤ maxVar := fun v frozen =>
    ⟨(inside v frozen).1, size ▸ (inside v frozen).2, (inside v frozen).2.trans small⟩
  obtain ⟨ls, read, named, valid, agrees⟩ := mapM_literalOf covered
  have ascending : (ls.map Literal.var).Pairwise (· < ·) := named ▸ run.pairwise_frozenVars
  refine ⟨ls, read, ascending, ⟨ascending.imp Nat.ne_of_lt, valid, fun l member => ?_⟩, agrees⟩
  exact (inside l.var (named ▸ List.mem_map_of_mem member)).2

end Backbone

end SatLab
