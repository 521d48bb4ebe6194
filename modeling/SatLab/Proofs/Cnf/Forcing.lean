import SatLab.Proofs.Cnf.Restriction
/-!
Formulas in which a variable is forced to a value by a further clause of one literal, and
assignments in which a variable is given a value. A variable that does not occur can be given
either value without harm to a model.
-/

set_option autoImplicit false
set_option relaxedAutoImplicit false

namespace SatLab

namespace Literal

/-- The literal that is true when the variable has the value. -/
def signed (v : Nat) (b : Bool) : Literal := ⟨if b then v else -(v : Int)⟩

section Signed

variable {v : Nat} {b : Bool}

theorem ofVar_eq_signed (positive : 0 < v) (bound : v ≤ maxVar) : ofVar v b = .ok (signed v b) :=
  if_pos ⟨positive, bound⟩

@[simp] theorem var_signed : (signed v b).var = v := by
  cases b <;> simp [signed, var]

theorem isPositive_signed (positive : 0 < v) : (signed v b).isPositive = b := by
  cases b <;> simp [signed, isPositive, positive]

theorem valid_signed (positive : 0 < v) (bound : v ≤ maxVar) : (signed v b).Valid := by
  refine ⟨?_, var_signed.symm ▸ bound⟩
  cases b <;> simp only [signed] <;> omega

theorem neg_signed : -(signed v b) = signed v (!b) := by
  have negated : (-(signed v b)).value = -(signed v b).value := rfl
  cases b <;> simp only [signed] at negated ⊢
  · exact congrArg Literal.mk (by simp)
  · rfl

end Signed

end Literal

namespace Assignment

variable {a : Assignment} {v : Nat}

theorem exists_value (positive : 0 < v) (bound : v ≤ a.size) : ∃ b, a.value v = .ok b := by
  have inside : v - 1 < a.values.size := by
    simp only [size] at bound
    omega
  exact ⟨_, value_eq_ok_iff.mpr ⟨positive, Array.getElem?_eq_getElem inside⟩⟩

theorem range_of_value {b : Bool} (value : a.value v = .ok b) : 0 < v ∧ v ≤ a.size := by
  obtain ⟨positive, entry⟩ := value_eq_ok_iff.mp value
  have inside := (Array.getElem?_eq_some_iff.mp entry).1
  simp only [size]
  omega

theorem satisfies_signed_iff {b : Bool} (positive : 0 < v) :
    a.Satisfies (.signed v b) ↔ a.value v = .ok b := by
  rw [Satisfies, Literal.var_signed, Literal.isPositive_signed positive, value_eq_ok_iff]

theorem value_not_of_ne {b : Bool} (positive : 0 < v) (bound : v ≤ a.size)
    (differs : a.value v ≠ .ok b) : a.value v = .ok (!b) := by
  obtain ⟨c, value⟩ := exists_value positive bound
  rw [value] at differs ⊢
  cases b <;> cases c <;> simp_all

theorem opposite_of_value {b : Bool} (positive : 0 < v) (bound : v ≤ maxVar)
    (value : a.value v = .ok b) : (do (← a.literalOf v).opposite) = .ok (.signed v !b) := by
  have literal : a.literalOf v = .ok (.signed v b) := by
    rw [literalOf, value]
    exact Literal.ofVar_eq_signed positive bound
  rw [literal]
  change (Literal.signed v b).opposite = .ok (.signed v !b)
  rw [Literal.opposite_of_valid (Literal.valid_signed positive bound), Literal.neg_signed]

theorem satisfies_of_set {a' : Assignment} {b : Bool} {l : Literal} (given : a.set v b = .ok a')
    (other : l.var ≠ v) : a'.Satisfies l ↔ a.Satisfies l := by
  have positive : 0 < v := by
    rw [set] at given
    split at given
    · next covered => exact covered.1
    · cases given
  refine and_congr_right fun nonzero => ?_
  rw [getElem?_of_set given, if_neg (by omega)]

end Assignment

namespace Formula

/-- The formula with a further clause that forces a variable to a value. -/
def force (f : Formula) (v : Nat) (b : Bool) : Formula :=
  ⟨f.numVars, f.clauses ++ [⟨[.signed v b]⟩]⟩

section Force

variable {f : Formula} {v : Nat} {b : Bool}

private theorem literals_force : (f.force v b).literals = f.literals ++ [.signed v b] := by
  simp [literals, force]

theorem WellFormed.force (wellFormed : f.WellFormed) (positive : 0 < v) (inside : v ≤ f.numVars)
    (named : v ≤ maxVar) : (f.force v b).WellFormed := by
  intro c member l occurs
  rcases List.mem_append.mp member with original | new
  · exact wellFormed c original l occurs
  · obtain rfl := List.mem_singleton.mp new
    obtain rfl := List.mem_singleton.mp occurs
    exact ⟨Literal.valid_signed positive named, Literal.var_signed.symm ▸ inside⟩

theorem withClause_eq_force (wellFormed : f.WellFormed) (inside : v ≤ f.numVars) :
    f.withClause ⟨[.signed v b]⟩ = .ok (f.force v b) := by
  refine ofClauses_eq_ok_iff.mpr ⟨?_, rfl⟩
  intro c member l occurs
  rcases List.mem_append.mp member with original | new
  · exact (wellFormed c original l occurs).2
  · obtain rfl := List.mem_singleton.mp new
    obtain rfl := List.mem_singleton.mp occurs
    exact Literal.var_signed.symm ▸ inside

theorem isModel_force_iff {a : Assignment} (positive : 0 < v) :
    (f.force v b).IsModel a ↔ f.IsModel a ∧ a.value v = .ok b := by
  simp only [IsModel, force, List.mem_append, List.mem_singleton, or_imp, forall_and,
    forall_eq, exists_eq_left, Assignment.satisfies_signed_iff positive, and_assoc]

theorem vars_force (occurs : v ∈ f.vars) : (f.force v b).vars = f.vars := by
  ext w
  simp only [mem_vars, literals_force, List.mem_append, List.mem_singleton]
  constructor
  · rintro ⟨l, original | rfl, rfl⟩
    · exact ⟨l, original, rfl⟩
    · rw [Literal.var_signed]
      exact mem_vars.mp occurs
  · rintro ⟨l, original, rfl⟩
    exact ⟨l, .inl original, rfl⟩

theorem isModel_of_set {a m : Assignment} (model : f.IsModel m) (fresh : v ∉ f.vars)
    (given : m.set v b = .ok a) : f.IsModel a := by
  refine ⟨(Assignment.size_of_set given).trans model.1, fun c member => ?_⟩
  obtain ⟨l, occurs, holds⟩ := model.2 c member
  have other : l.var ≠ v := by
    rintro rfl
    exact fresh (var_mem_vars (mem_literals.mpr ⟨c, member, occurs⟩))
  exact ⟨l, occurs, (Assignment.satisfies_of_set given other).mpr holds⟩

theorem exists_isModel_of_fresh {m : Assignment} (model : f.IsModel m) (positive : 0 < v)
    (inside : v ≤ f.numVars) (fresh : v ∉ f.vars) (b : Bool) :
    ∃ a, f.IsModel a ∧ a.value v = .ok b := by
  have covered : 0 < v ∧ v ≤ m.values.size := ⟨positive, inside.trans model.1.ge⟩
  have given : m.set v b = .ok ⟨m.values.set (v - 1) b⟩ := dif_pos covered
  refine ⟨_, isModel_of_set model fresh given, Assignment.value_eq_ok_iff.mpr ⟨positive, ?_⟩⟩
  rw [Assignment.getElem?_of_set given, if_pos rfl]

end Force

end Formula

end SatLab
