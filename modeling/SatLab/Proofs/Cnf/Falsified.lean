import Mathlib.Data.List.Basic
import SatLab.Proofs.Control.Task
import SatLab.Cnf.Formula
/-!
The clauses that an assignment makes false, as a total operation. On an assignment that covers the
formula it is what evaluation computes. Turning a variable over changes the value of no other one.
-/

set_option autoImplicit false
set_option relaxedAutoImplicit false

namespace SatLab

/-- A clause is falsified when none of its literals is true. -/
def Clause.Falsified (c : Clause) (a : Assignment) : Prop := ∀ l ∈ c.literals, ¬ a.Satisfies l

instance (c : Clause) (a : Assignment) : Decidable (c.Falsified a) :=
  inferInstanceAs (Decidable (∀ l ∈ c.literals, ¬ a.Satisfies l))

theorem Clause.eq_of_isSatisfiedBy {c : Clause} {a : Assignment} {b : Bool}
    (evaluated : c.isSatisfiedBy a = .ok b) : b = !decide (c.Falsified a) := by
  have found : b = true ↔ ∃ l ∈ c.literals, a.Satisfies l := by
    rw [isSatisfiedBy] at evaluated
    generalize c.literals = ls at evaluated ⊢
    induction ls with
    | nil =>
      cases evaluated
      simp
    | cons l ls ih =>
      rw [List.anyM] at evaluated
      cases value : a.satisfies l with
      | error e =>
        rw [value] at evaluated
        cases evaluated
      | ok first =>
        rw [value, ok_bind] at evaluated
        have holds : first = true ↔ a.Satisfies l := by
          rw [← Assignment.satisfies_eq_true_iff, value, Except.ok.injEq]
        cases first with
        | true =>
          cases evaluated
          simp [holds.mp rfl]
        | false =>
          have fails : ¬ a.Satisfies l := mt holds.mpr Bool.false_ne_true
          rw [ih evaluated]
          simp [fails]
  have falsified : c.Falsified a ↔ ¬ ∃ l ∈ c.literals, a.Satisfies l := by simp [Falsified]
  rw [Bool.eq_iff_iff, found, Bool.not_eq_true', decide_eq_false_iff_not, falsified, not_not]

namespace Formula

/-- The places of the clauses that an assignment falsifies, ascending. -/
def falsified (f : Formula) (a : Assignment) : List Nat :=
  (f.clauses.zipIdx.filter fun p => decide (p.1.Falsified a)).map Prod.snd

private theorem unsatFrom_eq_ok_iff {a : Assignment} {cs : List Clause} {start : Nat}
    {places : List Nat} : unsatFrom a start cs = .ok places ↔
      places = ((cs.zipIdx start).filter fun p => decide (p.1.Falsified a)).map Prod.snd ∧
        ∀ c ∈ cs, c.isSatisfiedBy a = .ok (!decide (c.Falsified a)) := by
  induction cs generalizing start places with
  | nil => simp [unsatFrom, eq_comm]
  | cons c cs ih =>
    rw [unsatFrom, List.forall_mem_cons, List.zipIdx_cons]
    cases here : c.isSatisfiedBy a with
    | error e => simp
    | ok b =>
      obtain rfl := Clause.eq_of_isSatisfiedBy here
      rw [ok_bind]
      cases later : unsatFrom a (start + 1) cs with
      | error e =>
        have broken : ¬ ∀ d ∈ cs, d.isSatisfiedBy a = .ok (!decide (d.Falsified a)) := by
          intro evaluated
          cases later.symm.trans (ih.mpr ⟨rfl, evaluated⟩)
        simp [broken]
      | ok rest =>
        obtain ⟨rfl, evaluated⟩ := ih.mp later
        rw [and_iff_left ⟨rfl, evaluated⟩]
        by_cases none : c.Falsified a <;> simp [none, eq_comm]

theorem unsatClauses_eq_ok_iff {f : Formula} {a : Assignment} {places : List Nat} :
    f.unsatClauses a = .ok places ↔ places = f.falsified a ∧
      ∀ c ∈ f.clauses, c.isSatisfiedBy a = .ok (!decide (c.Falsified a)) :=
  unsatFrom_eq_ok_iff

/-- The falsified clauses of a well-formed formula can be computed under every assignment to its
variables. -/
theorem unsatClauses_of_wellFormed {f : Formula} {a : Assignment} (wellFormed : f.WellFormed)
    (size : a.size = f.numVars) : f.unsatClauses a = .ok (f.falsified a) := by
  refine unsatClauses_eq_ok_iff.mpr ⟨rfl, fun c member => ?_⟩
  have evaluated := Clause.isSatisfiedBy_of_covered (wellFormed.covered size member)
  rw [evaluated, ← Clause.eq_of_isSatisfiedBy evaluated]

theorem countUnsat_of_unsatClauses {f : Formula} {a : Assignment} {places : List Nat}
    (evaluated : f.unsatClauses a = .ok places) : f.countUnsat a = .ok places.length := by
  rw [countUnsat, evaluated]
  rfl

theorem countUnsat_eq_ok_iff {f : Formula} {a : Assignment} {count : Nat} :
    f.countUnsat a = .ok count ↔ count = (f.falsified a).length ∧
      ∀ c ∈ f.clauses, c.isSatisfiedBy a = .ok (!decide (c.Falsified a)) := by
  constructor
  · intro counted
    cases evaluated : f.unsatClauses a with
    | error e =>
      rw [countUnsat, evaluated] at counted
      cases counted
    | ok places =>
      rw [countUnsat_of_unsatClauses evaluated] at counted
      cases counted
      obtain ⟨rfl, decided⟩ := unsatClauses_eq_ok_iff.mp evaluated
      exact ⟨rfl, decided⟩
  · rintro ⟨rfl, decided⟩
    exact countUnsat_of_unsatClauses (unsatClauses_eq_ok_iff.mpr ⟨rfl, decided⟩)

theorem length_falsified (f : Formula) (a : Assignment) :
    (f.falsified a).length = f.clauses.countP fun c => decide (c.Falsified a) := by
  have numbered := List.countP_map (p := fun c => decide (Clause.Falsified c a)) (f := Prod.fst)
    (l := f.clauses.zipIdx)
  rw [List.zipIdx_map_fst] at numbered
  rw [falsified, List.length_map, ← List.countP_eq_length_filter, numbered]
  rfl

theorem mem_falsified {f : Formula} {a : Assignment} {i : Nat} :
    i ∈ f.falsified a ↔ ∃ c, f.clauses[i]? = some c ∧ c.Falsified a := by
  simp [falsified, List.mem_zipIdx_iff_getElem?]

theorem isModel_iff_countUnsat {f : Formula} {a : Assignment} (wellFormed : f.WellFormed)
    (size : a.size = f.numVars) : f.IsModel a ↔ f.countUnsat a = .ok 0 := by
  rw [countUnsat_of_unsatClauses (unsatClauses_of_wellFormed wellFormed size), Except.ok.injEq,
    List.length_eq_zero_iff]
  constructor
  · intro model
    apply List.eq_nil_iff_forall_not_mem.mpr
    intro i member
    obtain ⟨c, found, none⟩ := mem_falsified.mp member
    obtain ⟨l, occurs, holds⟩ := model.2 c (List.mem_of_getElem? found)
    exact none l occurs holds
  · intro empty
    refine ⟨size, fun c member => ?_⟩
    by_contra none
    obtain ⟨i, found⟩ := List.mem_iff_getElem?.mp member
    have listed : i ∈ f.falsified a :=
      mem_falsified.mpr ⟨c, found, fun l occurs holds => none ⟨l, occurs, holds⟩⟩
    simp [empty] at listed

end Formula

namespace Assignment

variable {a a' : Assignment} {u v : Nat}

theorem exists_flip (positive : 0 < v) (bound : v ≤ a.size) : ∃ a', a.flip v = .ok a' :=
  ⟨_, dif_pos ⟨positive, bound⟩⟩

theorem range_of_flip (turned : a.flip v = .ok a') : 0 < v ∧ v ≤ a.values.size := by
  rw [flip] at turned
  split at turned
  · assumption
  · cases turned

theorem value_of_flip (turned : a.flip u = .ok a') :
    a'.value v = if v = u then (a.value v).map not else a.value v := by
  have range := range_of_flip turned
  rw [flip, dif_pos range] at turned
  cases turned
  by_cases covered : 0 < v ∧ v ≤ a.values.size
  · rw [value, value, dif_pos (by simpa using covered), dif_pos covered]
    by_cases same : v = u
    · subst same
      simp [Except.map]
    · have apart : u - 1 ≠ v - 1 := by omega
      simp [same, Array.getElem_set, apart]
  · rw [value, value, dif_neg (by simpa using covered), dif_neg covered]
    simp [Except.map]

end Assignment

end SatLab
