import Mathlib.Algebra.BigOperators.Group.List.Basic
import Mathlib.Algebra.Order.Group.Nat
import SatLab.Proofs.Cnf.Falsified
/-!
Turning a variable over is felt only by the clauses that mention it. Among these a falsified one
becomes true, so the number of falsified clauses moves by no more than the variable occurs.
-/

set_option autoImplicit false
set_option relaxedAutoImplicit false

namespace SatLab

section Count

variable {α : Type} {items : List α} {p q near : α → Bool}

private theorem countP_le_of_near (differ : ∀ x ∈ items, p x ≠ q x → near x = true) :
    items.countP q ≤ items.countP p + items.countP near := by
  induction items with
  | nil => exact Nat.zero_le _
  | cons x items ih =>
    obtain ⟨here, rest⟩ := List.forall_mem_cons.mp differ
    have later := ih rest
    simp only [List.countP_cons]
    revert here
    cases p x <;> cases q x <;> cases near x <;> simp <;> omega

/-- An element that the first test counts and the second does not is a difference that is not on
the side of the second. -/
private theorem countP_add_two_le_of_near (differ : ∀ x ∈ items, p x ≠ q x → near x = true) {x : α}
    (member : x ∈ items) (first : p x = true) (second : q x = false) :
    items.countP q + 2 ≤ items.countP p + items.countP near := by
  have here : near x = true := by
    apply differ x member
    simp [first, second]
  obtain ⟨front, behind, rfl⟩ := List.append_of_mem member
  obtain ⟨differ', rest⟩ := List.forall_mem_append.mp differ
  have before := countP_le_of_near differ'
  have after := countP_le_of_near (List.forall_mem_cons.mp rest).2
  simp only [List.countP_append, List.countP_cons, first, second, here, if_true,
    Bool.false_eq_true, if_false]
  omega

end Count

/-- Some literal of the clause is over the variable. -/
def Clause.Mentions (c : Clause) (v : Nat) : Prop := ∃ l ∈ c.literals, l.var = v

instance (c : Clause) (v : Nat) : Decidable (c.Mentions v) :=
  inferInstanceAs (Decidable (∃ l ∈ c.literals, l.var = v))

section Flip

variable {a a' : Assignment} {c : Clause} {f : Formula} {l : Literal} {v : Nat}

namespace Assignment

private theorem satisfies_iff_value : a.Satisfies l ↔ a.value l.var = .ok l.isPositive :=
  value_eq_ok_iff.symm

private theorem satisfies_of_flip_ne (turned : a.flip v = .ok a') (other : l.var ≠ v) :
    a'.Satisfies l ↔ a.Satisfies l := by
  rw [satisfies_iff_value, satisfies_iff_value, value_of_flip turned, if_neg other]

private theorem satisfies_of_flip_eq (turned : a.flip v = .ok a') (here : l.var = v) :
    a'.Satisfies l ↔ ¬ a.Satisfies l := by
  obtain ⟨positive, bound⟩ := range_of_flip turned
  have covered : v - 1 < a.values.size := by omega
  have value : a.value v = .ok a.values[v - 1] :=
    value_eq_ok_iff.mpr ⟨positive, Array.getElem?_eq_getElem covered⟩
  rw [satisfies_iff_value, satisfies_iff_value, value_of_flip turned, if_pos here, here, value]
  cases a.values[v - 1] <;> cases l.isPositive <;> simp [Except.map]

end Assignment

private theorem Clause.falsified_of_flip (turned : a.flip v = .ok a') (absent : ¬ c.Mentions v) :
    c.Falsified a' ↔ c.Falsified a := by
  have same : ∀ l ∈ c.literals, (a'.Satisfies l ↔ a.Satisfies l) := by
    intro l occurs
    apply Assignment.satisfies_of_flip_ne turned
    intro here
    exact absent ⟨l, occurs, here⟩
  constructor
  · intro none l occurs holds
    exact none l occurs ((same l occurs).mpr holds)
  · intro none l occurs holds
    exact none l occurs ((same l occurs).mp holds)

theorem Clause.not_falsified_of_flip (turned : a.flip v = .ok a') (mentions : c.Mentions v)
    (none : c.Falsified a) : ¬ c.Falsified a' := by
  obtain ⟨l, occurs, here⟩ := mentions
  intro none'
  have holds := (Assignment.satisfies_of_flip_eq turned here).mpr (none l occurs)
  exact none' l occurs holds

namespace Formula

private theorem countP_mentions_le (f : Formula) (v : Nat) :
    f.clauses.countP (fun c => decide (c.Mentions v)) ≤
      f.literals.countP fun l => decide (l.var = v) := by
  rw [literals]
  induction f.clauses with
  | nil => exact Nat.zero_le _
  | cons c cs ih =>
    rw [List.countP_cons, List.flatMap_cons, List.countP_append]
    by_cases mentions : c.Mentions v
    · have occurs : 0 < c.literals.countP fun l => decide (l.var = v) := by
        obtain ⟨l, inside, here⟩ := mentions
        exact List.countP_pos_iff.mpr ⟨l, inside, decide_eq_true here⟩
      simp only [mentions, decide_true, if_true]
      omega
    · simp only [mentions, decide_false, Bool.false_eq_true, if_false]
      omega

/-- When the variable of a literal in a falsified clause is turned over, the number of falsified
clauses falls by at most the occurrences of the variable and rises by at most two less: that clause
becomes true, and it is not among those that can be lost. -/
theorem length_falsified_of_flip (turned : a.flip v = .ok a') (member : c ∈ f.clauses)
    (none : c.Falsified a) (mentions : c.Mentions v) :
    (f.falsified a).length ≤
        (f.falsified a').length + f.literals.countP (fun l => decide (l.var = v)) ∧
      (f.falsified a').length + 2 ≤
        (f.falsified a).length + f.literals.countP fun l => decide (l.var = v) := by
  have near : ∀ d ∈ f.clauses, decide (d.Falsified a) ≠ decide (d.Falsified a') →
      decide (d.Mentions v) = true := by
    intro d _ differs
    by_contra far
    have same := Clause.falsified_of_flip (c := d) turned (by simpa using far)
    exact differs (by simp only [same])
  have fall := countP_le_of_near fun d inside differs => near d inside differs.symm
  have mended : ¬ c.Falsified a' := Clause.not_falsified_of_flip turned mentions none
  have rise := countP_add_two_le_of_near near member (decide_eq_true none) (decide_eq_false mended)
  have occurrences := countP_mentions_le f v
  rw [length_falsified, length_falsified]
  omega

end Formula

end Flip

end SatLab
