import Mathlib.Order.Interval.Finset.Nat
import SatLab.Proofs.Cnf.Forcing
import SatLab.Proofs.Control.Task
/-!
Formulas reduced by a selection of literals over distinct variables. The reduced formula has a
model exactly when the formula has one that agrees with the selection, and it ranges over the
variables that the selection leaves.
-/

set_option autoImplicit false
set_option relaxedAutoImplicit false

namespace SatLab.Formula

/-- Values for some of the variables of a formula: valid literals over distinct ones. -/
structure Selection (f : Formula) (ls : List Literal) : Prop where
  distinct : (ls.map Literal.var).Nodup
  valid : ∀ l ∈ ls, l.Valid
  inside : ∀ l ∈ ls, l.var ≤ f.numVars

instance (f : Formula) (ls : List Literal) : Decidable (f.Selection ls) :=
  decidable_of_iff ((ls.map Literal.var).Nodup ∧ (∀ l ∈ ls, l.Valid) ∧ ∀ l ∈ ls, l.var ≤ f.numVars)
    ⟨fun ⟨distinct, valid, inside⟩ => ⟨distinct, valid, inside⟩,
      fun selection => ⟨selection.distinct, selection.valid, selection.inside⟩⟩

namespace Selection

variable {f : Formula} {l : Literal} {ls : List Literal}

theorem reverse (selection : f.Selection ls) : f.Selection ls.reverse where
  distinct := by simpa using selection.distinct
  valid := by simpa using selection.valid
  inside := by simpa using selection.inside

theorem tail (selection : f.Selection (l :: ls)) : f.Selection ls where
  distinct := (List.nodup_cons.mp selection.distinct).2
  valid k member := selection.valid k (List.mem_cons_of_mem l member)
  inside k member := selection.inside k (List.mem_cons_of_mem l member)

private theorem head_apart (selection : f.Selection (l :: ls)) : ∀ k ∈ ls, k.var ≠ l.var := by
  intro k member same
  exact (List.nodup_cons.mp selection.distinct).1 (List.mem_map.mpr ⟨k, member, same⟩)

private theorem toFinset_subset (selection : f.Selection ls) :
    (ls.map Literal.var).toFinset ⊆ Finset.Icc 1 f.numVars := by
  intro v member
  obtain ⟨l, listed, rfl⟩ := List.mem_map.mp (List.mem_toFinset.mp member)
  exact Finset.mem_Icc.mpr ⟨(selection.valid l listed).var_pos, selection.inside l listed⟩

theorem length_le (selection : f.Selection ls) : ls.length ≤ f.numVars := by
  have few := Finset.card_le_card selection.toFinset_subset
  rwa [List.toFinset_card_of_nodup selection.distinct, List.length_map, Nat.card_Icc,
    Nat.add_sub_cancel] at few

end Selection

theorem reduceAll_of_valid {f : Formula} {ls : List Literal} (valid : ∀ l ∈ ls, l.Valid) :
    f.reduceAll ls = .ok (f.restrictAll ls.reverse) := by
  induction ls generalizing f with
  | nil => rfl
  | cons l ls ih =>
    have first : f.reduce l = .ok (f.restrict l) := reduce_of_valid (valid l List.mem_cons_self)
    have rest := ih (f := f.restrict l) fun k member => valid k (List.mem_cons_of_mem l member)
    rw [reduceAll, List.foldlM_cons, first, ok_bind, ← reduceAll, rest]
    simp [restrictAll]

section Agreement

variable {f g : Formula} {m : Assignment} {ls : List Literal}

private theorem exists_isModel_agrees (model : g.IsModel m) (selection : g.Selection ls)
    (fresh : ∀ l ∈ ls, l.var ∉ g.vars) : ∃ a, g.IsModel a ∧ a.Agrees ls := by
  induction ls with
  | nil => exact ⟨m, model, m.agrees_nil⟩
  | cons l ls ih =>
    -- the model of the tail is changed at a variable that neither the formula nor the tail names
    obtain ⟨a, modelled, agrees⟩ :=
      ih selection.tail fun k member => fresh k (List.mem_cons_of_mem l member)
    have positive := (selection.valid l List.mem_cons_self).var_pos
    have inside : l.var ≤ a.size := modelled.1 ▸ selection.inside l List.mem_cons_self
    have given : a.set l.var l.isPositive = .ok ⟨a.values.set (l.var - 1) l.isPositive _⟩ :=
      dif_pos ⟨positive, inside⟩
    refine ⟨_, isModel_of_set modelled (fresh l List.mem_cons_self) given, ?_⟩
    refine Assignment.agrees_cons.mpr ⟨⟨positive, ?_⟩, fun k member => ?_⟩
    · rw [Assignment.getElem?_of_set given, if_pos rfl]
    · exact (Assignment.satisfies_of_set given (selection.head_apart k member)).mpr
        (agrees k member)

theorem satisfiable_restrictAll_iff (selection : f.Selection ls) :
    (f.restrictAll ls).Satisfiable ↔ ∃ a, f.IsModel a ∧ a.Agrees ls := by
  constructor
  · rintro ⟨m, model⟩
    have still : (f.restrictAll ls).Selection ls :=
      ⟨selection.distinct, selection.valid, by simpa using selection.inside⟩
    have fresh : ∀ l ∈ ls, l.var ∉ (f.restrictAll ls).vars := by
      intro l member occurs
      have gone := (Finset.mem_sdiff.mp (vars_restrictAll_subset f ls occurs)).2
      exact gone (List.mem_toFinset.mpr (List.mem_map_of_mem member))
    obtain ⟨a, modelled, agrees⟩ := exists_isModel_agrees model still fresh
    exact ⟨a, (isModel_restrictAll_iff selection.valid agrees).mp modelled, agrees⟩
  · rintro ⟨a, model, agrees⟩
    exact ⟨a, (isModel_restrictAll_iff selection.valid agrees).mpr model⟩

theorem card_vars_restrictAll_le (wellFormed : f.WellFormed) (selection : f.Selection ls) :
    (f.restrictAll ls).vars.card ≤ f.numVars - ls.length := by
  have left : (f.restrictAll ls).vars ⊆
      Finset.Icc 1 f.numVars \ (ls.map Literal.var).toFinset := by
    intro v member
    obtain ⟨occurs, gone⟩ := Finset.mem_sdiff.mp (vars_restrictAll_subset f ls member)
    obtain ⟨l, listed, rfl⟩ := mem_vars.mp occurs
    obtain ⟨valid, inside⟩ := wellFormed.of_mem_literals listed
    exact Finset.mem_sdiff.mpr ⟨Finset.mem_Icc.mpr ⟨valid.var_pos, inside⟩, gone⟩
  calc (f.restrictAll ls).vars.card
      ≤ (Finset.Icc 1 f.numVars \ (ls.map Literal.var).toFinset).card := Finset.card_le_card left
    _ = f.numVars - ls.length := by
      rw [Finset.card_sdiff_of_subset selection.toFinset_subset, Nat.card_Icc,
        List.toFinset_card_of_nodup selection.distinct, List.length_map, Nat.add_sub_cancel]

end Agreement

end SatLab.Formula
