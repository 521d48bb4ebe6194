import Mathlib.Data.Finset.Card
import Mathlib.Data.Finset.SDiff
import SatLab.Cnf.Formula
/-!
Restriction of a formula by literals that are taken to be true, as a total operation. On valid
literals it is what reduction computes. A restriction has the models of the formula that agree
with the literals, and it has lost their variables.
-/

set_option autoImplicit false
set_option relaxedAutoImplicit false

namespace SatLab

namespace Literal

private theorem eq_or_eq_neg_of_var_eq {k l : Literal} (same : k.var = l.var) : k = l ∨ k = -l := by
  rcases Int.natAbs_eq_natAbs_iff.mp same with equal | opposite
  · left
    cases k
    cases l
    exact congrArg Literal.mk equal
  · right
    cases k
    exact congrArg Literal.mk opposite

theorem eq_of_var_eq {k l : Literal} (same : k.var = l.var)
    (polarity : k.isPositive = l.isPositive) : k = l := by
  rcases k with ⟨value⟩
  rcases l with ⟨value'⟩
  simp only [var, isPositive, decide_eq_decide] at same polarity
  exact congrArg Literal.mk (by omega)

end Literal

namespace Assignment

theorem satisfies_neg_iff {a : Assignment} {l : Literal} (valid : l.Valid)
    (covered : l.var ≤ a.size) : a.Satisfies (-l) ↔ ¬ a.Satisfies l := by
  have positive := valid.var_pos
  have bound : l.var - 1 < a.values.size := by
    simp only [size] at covered
    omega
  simp only [Satisfies, Literal.var_neg, Literal.isPositive_neg valid, positive, true_and,
    Array.getElem?_eq_getElem bound, Option.some.injEq]
  cases a.values[l.var - 1] <;> cases l.isPositive <;> simp

theorem not_satisfies_neg {a : Assignment} {l : Literal} (valid : l.Valid)
    (holds : a.Satisfies l) : ¬ a.Satisfies (-l) := by
  intro opposite
  have equal := holds.2.symm.trans (Literal.var_neg l ▸ opposite.2)
  rw [Literal.isPositive_neg valid, Option.some.injEq] at equal
  exact Bool.self_ne_not _ equal

/-- Agreement with a list of literals: all of them are true. -/
def Agrees (a : Assignment) (ls : List Literal) : Prop := ∀ l ∈ ls, a.Satisfies l

instance (a : Assignment) (ls : List Literal) : Decidable (a.Agrees ls) :=
  inferInstanceAs (Decidable (∀ l ∈ ls, a.Satisfies l))

theorem agrees_nil (a : Assignment) : a.Agrees [] := by
  simp [Agrees]

theorem agrees_cons {a : Assignment} {l : Literal} {ls : List Literal} :
    a.Agrees (l :: ls) ↔ a.Satisfies l ∧ a.Agrees ls := by
  simp [Agrees]

end Assignment

namespace Formula

def vars (f : Formula) : Finset Nat := (f.literals.map Literal.var).toFinset

theorem mem_literals {f : Formula} {l : Literal} :
    l ∈ f.literals ↔ ∃ c ∈ f.clauses, l ∈ c.literals := by
  simp [literals, List.mem_flatMap]

theorem mem_vars {f : Formula} {v : Nat} : v ∈ f.vars ↔ ∃ l ∈ f.literals, l.var = v := by
  simp [vars]

theorem var_mem_vars {f : Formula} {l : Literal} (occurs : l ∈ f.literals) : l.var ∈ f.vars :=
  mem_vars.mpr ⟨l, occurs, rfl⟩

theorem WellFormed.of_mem_literals {f : Formula} (wellFormed : f.WellFormed) {l : Literal}
    (occurs : l ∈ f.literals) : l.Valid ∧ l.var ≤ f.numVars := by
  obtain ⟨c, member, inside⟩ := mem_literals.mp occurs
  exact wellFormed c member l inside

/-- What is left of a formula when a literal is true: the clauses without it, and in these no
occurrence of its negation. -/
def restrict (f : Formula) (l : Literal) : Formula :=
  ⟨f.numVars, (f.clauses.filter (!·.contains l)).map (·.without (-l))⟩

@[simp] theorem numVars_restrict (f : Formula) (l : Literal) :
    (f.restrict l).numVars = f.numVars := rfl

private theorem mem_clauses_restrict {f : Formula} {l : Literal} {c : Clause} :
    c ∈ (f.restrict l).clauses ↔ ∃ d ∈ f.clauses, l ∉ d.literals ∧ d.without (-l) = c := by
  simp [restrict, Clause.contains, and_assoc]

private theorem mem_literals_restrict {f : Formula} {k l : Literal}
    (occurs : k ∈ (f.restrict l).literals) : k ∈ f.literals ∧ k ≠ l ∧ k ≠ -l := by
  obtain ⟨c, member, inside⟩ := mem_literals.mp occurs
  obtain ⟨d, original, absent, rfl⟩ := mem_clauses_restrict.mp member
  have kept := List.mem_filter.mp inside
  refine ⟨mem_literals.mpr ⟨d, original, kept.1⟩, ?_, by simpa using kept.2⟩
  rintro rfl
  exact absent kept.1

private theorem vars_restrict_subset (f : Formula) (l : Literal) :
    (f.restrict l).vars ⊆ f.vars.erase l.var := by
  intro v member
  obtain ⟨k, occurs, rfl⟩ := mem_vars.mp member
  obtain ⟨original, notSame, notOpposite⟩ := mem_literals_restrict occurs
  refine Finset.mem_erase.mpr ⟨?_, var_mem_vars original⟩
  intro same
  rcases Literal.eq_or_eq_neg_of_var_eq same with equal | opposite
  · exact notSame equal
  · exact notOpposite opposite

theorem card_vars_restrict_lt {f : Formula} {l : Literal} (occurs : l.var ∈ f.vars) :
    (f.restrict l).vars.card < f.vars.card :=
  (Finset.card_le_card (vars_restrict_subset f l)).trans_lt (Finset.card_erase_lt_of_mem occurs)

theorem WellFormed.restrict {f : Formula} (wellFormed : f.WellFormed) (l : Literal) :
    (f.restrict l).WellFormed := by
  intro c member k inside
  obtain ⟨occurs, -⟩ := mem_literals_restrict (mem_literals.mpr ⟨c, member, inside⟩)
  exact wellFormed.of_mem_literals occurs

/-- Under an assignment that makes the literal true, a formula and its restriction have the same
true clauses, so the assignment is a model of both or of neither. -/
private theorem isModel_restrict_iff {f : Formula} {l : Literal} {a : Assignment} (valid : l.Valid)
    (holds : a.Satisfies l) : (f.restrict l).IsModel a ↔ f.IsModel a := by
  refine and_congr_right fun _ => ⟨?_, ?_⟩
  · intro model c member
    by_cases inside : l ∈ c.literals
    · exact ⟨l, inside, holds⟩
    · obtain ⟨k, kept, true⟩ := model _ (mem_clauses_restrict.mpr ⟨c, member, inside, rfl⟩)
      exact ⟨k, (List.mem_filter.mp kept).1, true⟩
  · intro model c member
    obtain ⟨d, original, -, rfl⟩ := mem_clauses_restrict.mp member
    obtain ⟨k, inside, true⟩ := model d original
    have differs : k ≠ -l := by
      rintro rfl
      exact Assignment.not_satisfies_neg valid holds true
    exact ⟨k, List.mem_filter.mpr ⟨inside, by simpa using differs⟩, true⟩

/-- Restriction by the literals of a trail, the last of which was taken first. -/
def restrictAll (f : Formula) (trail : List Literal) : Formula :=
  trail.foldr (fun l g => g.restrict l) f

@[simp] theorem restrictAll_nil (f : Formula) : f.restrictAll [] = f := rfl

@[simp] theorem restrictAll_cons (f : Formula) (l : Literal) (trail : List Literal) :
    f.restrictAll (l :: trail) = (f.restrictAll trail).restrict l := rfl

@[simp] theorem numVars_restrictAll (f : Formula) (trail : List Literal) :
    (f.restrictAll trail).numVars = f.numVars := by
  induction trail with
  | nil => rfl
  | cons l trail ih => simpa using ih

theorem WellFormed.restrictAll {f : Formula} (wellFormed : f.WellFormed) (trail : List Literal) :
    (f.restrictAll trail).WellFormed := by
  induction trail with
  | nil => exact wellFormed
  | cons l trail ih => exact ih.restrict l

theorem vars_restrictAll_subset (f : Formula) (trail : List Literal) :
    (f.restrictAll trail).vars ⊆ f.vars \ (trail.map Literal.var).toFinset := by
  induction trail with
  | nil => simp
  | cons l trail ih =>
    intro v member
    obtain ⟨differs, rest⟩ := Finset.mem_erase.mp (vars_restrict_subset _ l member)
    obtain ⟨occurs, fresh⟩ := Finset.mem_sdiff.mp (ih rest)
    refine Finset.mem_sdiff.mpr ⟨occurs, ?_⟩
    simp only [List.mem_toFinset, List.map_cons, List.mem_cons, not_or] at fresh ⊢
    exact ⟨differs, fresh⟩

/-- The models of what is left after a trail are, among the assignments that agree with the
trail, the models of the formula. -/
theorem isModel_restrictAll_iff {f : Formula} {a : Assignment} {trail : List Literal}
    (valid : ∀ l ∈ trail, l.Valid) (agrees : a.Agrees trail) :
    (f.restrictAll trail).IsModel a ↔ f.IsModel a := by
  induction trail with
  | nil => exact Iff.rfl
  | cons l trail ih =>
    obtain ⟨holds, rest⟩ := Assignment.agrees_cons.mp agrees
    rw [restrictAll_cons, isModel_restrict_iff (valid l List.mem_cons_self) holds]
    exact ih (fun k member => valid k (List.mem_cons_of_mem l member)) rest

end Formula

end SatLab
