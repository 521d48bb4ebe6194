import Mathlib.Data.Set.Function
import Mathlib.Order.Interval.Set.Defs
import SatLab.Proofs.Cnf.Forcing
/-!
Renamings of the variables of a formula, with a choice of variables whose polarity is flipped
everywhere. Renaming commutes with restriction, since no two literals are renamed alike.
-/

set_option autoImplicit false
set_option relaxedAutoImplicit false

namespace SatLab

/-- An injective renaming of the variables `1 .. n` into the variables `1 .. n'`, and a choice of
variables whose polarity is flipped. -/
structure Renaming (n n' : Nat) where
  var : Nat → Nat
  flips : Nat → Bool
  mapsTo : Set.MapsTo var (Set.Icc 1 n) (Set.Icc 1 n')
  injOn : Set.InjOn var (Set.Icc 1 n)

namespace Renaming

variable {n n' : Nat} (ρ : Renaming n n')

/-- The literal over the renamed variable, with the opposite polarity if that is flipped. -/
def literal (l : Literal) : Literal := .signed (ρ.var l.var) (l.isPositive ^^ ρ.flips l.var)

@[simp] theorem var_literal (l : Literal) : (ρ.literal l).var = ρ.var l.var := Literal.var_signed

variable {ρ} {k l : Literal}

theorem literal_injective (insideK : k.var ∈ Set.Icc 1 n) (insideL : l.var ∈ Set.Icc 1 n)
    (same : ρ.literal k = ρ.literal l) : k = l := by
  have sameVar : k.var = l.var := by
    apply ρ.injOn insideK insideL
    simpa using congrArg Literal.var same
  have positive : 0 < ρ.var l.var := (ρ.mapsTo insideL).1
  have polarity := congrArg Literal.isPositive same
  simp only [literal, sameVar, Literal.isPositive_signed positive] at polarity
  exact Literal.eq_of_var_eq sameVar (Bool.xor_left_inj.mp polarity)

theorem literal_neg (valid : l.Valid) : ρ.literal (-l) = -(ρ.literal l) := by
  rw [literal, literal, Literal.neg_signed, Literal.var_neg, Literal.isPositive_neg valid,
    Bool.not_xor]

/-- The second assignment gives the renamed variables the values that the first one gives the
variables they stand for, where the polarity is not flipped, and makes all added variables false. -/
structure Carries (ρ : Renaming n n') (m m' : Assignment) : Prop where
  size : m'.size = n'
  kept : ∀ v, 0 < v → v ≤ n → ρ.flips v = false → m'.value (ρ.var v) = m.value v
  added : ∀ w, 0 < w → w ≤ n' → (∀ v, 0 < v → v ≤ n → ρ.var v ≠ w) → m'.value w = .ok false

end Renaming

def Clause.rename {n n' : Nat} (c : Clause) (ρ : Renaming n n') : Clause :=
  ⟨c.literals.map ρ.literal⟩

namespace Formula

section Rename

variable {n n' : Nat} {f : Formula} {ρ : Renaming n n'}

/-- The formula over `n'` variables with every literal renamed. -/
def rename (f : Formula) (ρ : Renaming n n') : Formula := ⟨n', f.clauses.map (·.rename ρ)⟩

theorem literals_rename : (f.rename ρ).literals = f.literals.map ρ.literal := by
  simp only [literals, rename, List.flatMap_map, List.map_flatMap]
  rfl

theorem WellFormed.var_mem_Icc (wellFormed : f.WellFormed) {l : Literal} (occurs : l ∈ f.literals) :
    l.var ∈ Set.Icc 1 f.numVars := by
  obtain ⟨valid, bound⟩ := wellFormed.of_mem_literals occurs
  exact ⟨valid.var_pos, bound⟩

theorem WellFormed.rename (wellFormed : f.WellFormed) (ρ : Renaming f.numVars n')
    (small : ∀ v ∈ f.vars, ρ.var v ≤ maxVar) : (f.rename ρ).WellFormed := by
  intro c member k occurs
  obtain ⟨d, original, rfl⟩ := List.mem_map.mp member
  obtain ⟨l, inside, rfl⟩ := List.mem_map.mp occurs
  have occurred : l ∈ f.literals := mem_literals.mpr ⟨d, original, inside⟩
  obtain ⟨positive, bound⟩ := ρ.mapsTo (wellFormed.var_mem_Icc occurred)
  rw [Renaming.var_literal]
  exact ⟨Literal.valid_signed positive (small _ (var_mem_vars occurred)), bound⟩

section Inside

variable (inside : ∀ k ∈ f.literals, k.var ∈ Set.Icc 1 n)

include inside

private theorem contains_rename {c : Clause} (member : c ∈ f.clauses) {l : Literal}
    (here : l.var ∈ Set.Icc 1 n) : (c.rename ρ).contains (ρ.literal l) = c.contains l := by
  have covered : ∀ k ∈ c.literals, k.var ∈ Set.Icc 1 n := fun k occurs =>
    inside k (mem_literals.mpr ⟨c, member, occurs⟩)
  have same : ρ.literal l ∈ c.literals.map ρ.literal ↔ l ∈ c.literals := by
    constructor
    · intro image
      obtain ⟨k, occurs, equal⟩ := List.mem_map.mp image
      exact Renaming.literal_injective (covered k occurs) here equal ▸ occurs
    · exact List.mem_map_of_mem
  rw [Bool.eq_iff_iff]
  simpa [Clause.contains, Clause.rename] using same

private theorem without_rename {c : Clause} (member : c ∈ f.clauses) {l : Literal}
    (here : l.var ∈ Set.Icc 1 n) : (c.rename ρ).without (ρ.literal l) = (c.without l).rename ρ := by
  have covered : ∀ k ∈ c.literals, k.var ∈ Set.Icc 1 n := fun k occurs =>
    inside k (mem_literals.mpr ⟨c, member, occurs⟩)
  have same : ∀ k ∈ c.literals, (ρ.literal k != ρ.literal l) = (k != l) := by
    intro k occurs
    have distinct : ρ.literal k = ρ.literal l ↔ k = l :=
      ⟨Renaming.literal_injective (covered k occurs) here, congrArg ρ.literal⟩
    rw [Bool.eq_iff_iff]
    simp [distinct]
  simp only [Clause.without, Clause.rename, List.filter_map, Function.comp_def,
    List.filter_congr same]

theorem count_literals_rename {l : Literal} (here : l.var ∈ Set.Icc 1 n) :
    (f.rename ρ).literals.count (ρ.literal l) = f.literals.count l := by
  rw [literals_rename, List.count, List.count, List.countP_map]
  apply List.countP_congr
  intro k occurs
  have distinct : ρ.literal k = ρ.literal l ↔ k = l :=
    ⟨Renaming.literal_injective (inside k occurs) here, congrArg ρ.literal⟩
  simp [distinct]

private theorem restrict_rename {l : Literal} (valid : l.Valid) (here : l.var ∈ Set.Icc 1 n) :
    (f.rename ρ).restrict (ρ.literal l) = (f.restrict l).rename ρ := by
  have opposite : (-l).var ∈ Set.Icc 1 n := Literal.var_neg l ▸ here
  have kept : f.clauses.filter (fun c => !(c.rename ρ).contains (ρ.literal l)) =
      f.clauses.filter (!·.contains l) := by
    apply List.filter_congr
    intro c member
    rw [contains_rename inside member here]
  simp only [restrict, rename, List.filter_map, List.map_map, Function.comp_def, kept,
    Formula.mk.injEq, true_and]
  apply List.map_congr_left
  intro c member
  rw [← Renaming.literal_neg valid]
  exact without_rename inside (List.mem_filter.mp member).1 opposite

end Inside

theorem restrictAll_rename {ρ : Renaming f.numVars n'} (wellFormed : f.WellFormed)
    {trail : List Literal} (valid : ∀ l ∈ trail, l.Valid ∧ l.var ∈ Set.Icc 1 f.numVars) :
    (f.rename ρ).restrictAll (trail.map ρ.literal) = (f.restrictAll trail).rename ρ := by
  induction trail with
  | nil => rfl
  | cons l trail ih =>
    obtain ⟨here, covered⟩ := valid l List.mem_cons_self
    have rest := ih fun k member => valid k (List.mem_cons_of_mem l member)
    have inside : ∀ k ∈ (f.restrictAll trail).literals, k.var ∈ Set.Icc 1 f.numVars := by
      intro k occurs
      simpa using (wellFormed.restrictAll trail).var_mem_Icc occurs
    rw [List.map_cons, restrictAll_cons, restrictAll_cons, rest]
    exact restrict_rename inside here covered

end Rename

end Formula

end SatLab
