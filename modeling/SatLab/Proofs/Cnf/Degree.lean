import Mathlib.Algebra.BigOperators.Group.List.Basic
import Mathlib.Algebra.Order.Group.Nat
import SatLab.Proofs.Cnf.Restriction
import SatLab.Proofs.Control.Task
/-!
Tables of what the literals of a formula add to their variables. Such a table holds, for each
variable, the sum of the amounts of its occurrences.
-/

set_option autoImplicit false
set_option relaxedAutoImplicit false

namespace SatLab

theorem pairwise_zipIdx {α : Type} (items : List α) (first : Nat) :
    (items.zipIdx first).Pairwise fun p q => p.2 < q.2 := by
  apply List.pairwise_map.mp
  rw [List.zipIdx_map_snd]
  exact List.pairwise_lt_range'

namespace Formula

section Bump

variable {α : Type} [AddMonoid α] (amount : Literal → α)

private theorem bump_entry {table : Array α} {l : Literal} (valid : l.Valid)
    (bound : l.var ≤ table.size) :
    ∃ table', bump amount table l = .ok table' ∧ table'.size = table.size ∧
      ∀ v, 0 < v → table'[v - 1]? =
        table[v - 1]?.map fun x => if l.var = v then x + amount l else x := by
  have positive := valid.var_pos
  have inside : l.var - 1 < table.size := by omega
  refine ⟨table.set (l.var - 1) (table[l.var - 1] + amount l), ?_, by simp, fun v nonzero => ?_⟩
  · rw [bump, Literal.index_of_valid valid, ok_bind, dif_pos inside]
    rfl
  · rw [Array.getElem?_set]
    by_cases same : l.var = v
    · subst same
      simp [inside]
    · have apart : l.var - 1 ≠ v - 1 := by omega
      simp [same, apart]

/-- Adding up literals over the variables of a table adds to each entry the amounts of the
occurrences of its variable, in order. -/
theorem foldlM_bump {ls : List Literal} {table : Array α}
    (valid : ∀ l ∈ ls, l.Valid ∧ l.var ≤ table.size) :
    ∃ table', ls.foldlM (bump amount) table = .ok table' ∧ table'.size = table.size ∧
      ∀ v, 0 < v → table'[v - 1]? =
        table[v - 1]?.map (· + ((ls.filter fun l => l.var = v).map amount).sum) := by
  induction ls generalizing table with
  | nil => exact ⟨table, rfl, rfl, fun v _ => by simp⟩
  | cons l ls ih =>
    obtain ⟨here, bound⟩ := valid l List.mem_cons_self
    obtain ⟨next, bumped, size, entry⟩ := bump_entry amount here bound
    have rest : ∀ k ∈ ls, k.Valid ∧ k.var ≤ next.size := fun k member =>
      size ▸ valid k (List.mem_cons_of_mem l member)
    obtain ⟨last, folded, size', entry'⟩ := ih rest
    refine ⟨last, ?_, size'.trans size, fun v nonzero => ?_⟩
    · rw [List.foldlM_cons, bumped]
      exact folded
    · rw [entry' v nonzero, entry v nonzero, Option.map_map]
      congr 1
      funext x
      by_cases same : l.var = v <;> simp [same, add_assoc]

end Bump

/-- Counting literals looks each of them up in the table, and adds to every entry the occurrences of
its variable. -/
private theorem foldlM_bump_one (ls : List Literal) (table : Array Nat) :
    ls.foldlM (bump fun _ => 1) table = forM ls (lookUp table.size) >>= fun _ =>
      .ok (table.mapIdx fun i d => d + ls.countP fun l => l.var = i + 1) := by
  induction ls generalizing table with
  | nil =>
    change Except.ok table = Except.ok _
    congr 1
    apply Array.ext <;> simp
  | cons l ls ih =>
    rw [List.foldlM_cons, List.forM_cons, bump, lookUp]
    by_cases named : l.var = 0
    · rw [Literal.index, if_pos named]
      rfl
    · rw [Literal.index, if_neg named]
      by_cases inside : l.var - 1 < table.size
      · simp only [ok_bind, dif_pos inside, if_neg (Nat.not_le.mpr inside)]
        refine (ih _).trans ?_
        rw [Array.size_set]
        refine bind_congr fun _ => congrArg Except.ok ?_
        apply Array.ext
        · simp
        · intro i here there
          have apart : l.var - 1 = i ↔ l.var = i + 1 := by omega
          simp only [Array.getElem_mapIdx, Array.getElem_set, apart, List.countP_cons]
          by_cases same : l.var = i + 1 <;> simp [same]
          omega
      · simp only [ok_bind, dif_neg inside, if_pos (Nat.not_lt.mp inside)]
        rfl

theorem degrees_eq (f : Formula) : f.degrees = f.lookUpAll >>= fun _ =>
    .ok ((List.range' 1 f.numVars).map f.degree).toArray := by
  have counted := foldlM_bump_one f.literals (Array.replicate f.numVars 0)
  rw [Array.size_replicate] at counted
  refine counted.trans (bind_congr fun _ => congrArg Except.ok ?_)
  apply Array.ext
  · simp
  · intro i here there
    simp [degree, Nat.add_comm]

theorem degrees_of_wellFormed {f : Formula} (wellFormed : f.WellFormed) :
    ∃ d, f.degrees = .ok d ∧ d.size = f.numVars ∧
      ∀ v, 0 < v → v ≤ f.numVars → d[v - 1]? = some (f.literals.countP fun l => l.var = v) := by
  have valid : ∀ l ∈ f.literals, l.Valid ∧ l.var ≤ (Array.replicate f.numVars 0).size := by
    intro l member
    simpa using wellFormed.of_mem_literals member
  obtain ⟨d, folded, size, entry⟩ := foldlM_bump (fun _ => 1) valid
  refine ⟨d, folded, by simpa using size, fun v positive bound => ?_⟩
  have inside : v - 1 < f.numVars := by omega
  simp [entry v positive, inside, List.countP_eq_length_filter]

theorem countP_var_eq_zero_iff {f : Formula} {v : Nat} :
    (f.literals.countP fun l => l.var = v) = 0 ↔ v ∉ f.vars := by
  simp [List.countP_eq_zero, mem_vars]

end Formula

end SatLab
