import SatLab.Proofs.Control.Task
import SatLab.Proofs.Search.Branching
import SatLab.Search.Stack
/-!
What a frame on the stack stands for. The formula of a sound frame is the formula under search,
restricted by the trail of the frame, and examining the frame does what that formula calls for.
-/

set_option autoImplicit false
set_option relaxedAutoImplicit false

namespace SatLab.Search

/-- What a formula calls for: an end with nothing left to satisfy or with an empty clause, the first
literal that stands alone in a clause, or the first of those that occur most often. -/
inductive Demand
  | solved
  | falsified
  | unit (l : Literal)
  | split (l : Literal)

/-- The demand of the search at a formula. -/
def demand (g : Formula) : Demand :=
  if g.clauses.isEmpty then .solved
  else if g.hasEmptyClause then .falsified
  else match g.clauses.findSome? Clause.unit? with
    | some l => .unit l
    | none => match g.literals.argmax g.literals.count with
      | some l => .split l
      | none => .falsified

private theorem mem_clauses_of_unit? {g : Formula} {l : Literal}
    (unit : g.clauses.findSome? Clause.unit? = some l) : ⟨[l]⟩ ∈ g.clauses := by
  obtain ⟨c, member, alone⟩ := List.exists_of_findSome?_eq_some unit
  rcases c with ⟨_ | ⟨k, _ | ⟨_, _⟩⟩⟩ <;> simp [Clause.unit?] at alone
  subst alone
  exact member

private theorem exists_empty_of_literals_eq_nil {g : Formula} (some : g.clauses.isEmpty = false)
    (none : g.literals = []) : g.hasEmptyClause = true := by
  cases clauses : g.clauses with
  | nil => simp [clauses] at some
  | cons c cs =>
    have empty : c.literals = [] := by
      simp only [Formula.literals, clauses, List.flatMap_cons, List.append_eq_nil_iff] at none
      exact none.1
    simp [Formula.hasEmptyClause, clauses, Clause.isEmpty, empty]

/-- What a demand says about the formula. -/
def Demand.Justified (g : Formula) : Demand → Prop
  | .solved => g.clauses = []
  | .falsified => g.hasEmptyClause = true
  | .unit l => ⟨[l]⟩ ∈ g.clauses
  | .split l => l ∈ g.literals

theorem justified_of_demand {g : Formula} {d : Demand} (demanded : demand g = d) :
    d.Justified g := by
  subst demanded
  unfold demand
  split
  · next none => exact List.isEmpty_iff.mp none
  · next some =>
    split
    · next empty => exact empty
    · cases unit : g.clauses.findSome? Clause.unit? with
      | some l => exact mem_clauses_of_unit? unit
      | none =>
        cases best : g.literals.argmax g.literals.count with
        | some l => exact List.argmax_mem best
        | none =>
          exact exists_empty_of_literals_eq_nil (by simpa using some) (List.argmax_eq_none.mp best)

theorem not_isModel_of_hasEmptyClause {g : Formula} (empty : g.hasEmptyClause = true)
    (a : Assignment) : ¬ g.IsModel a := by
  intro model
  obtain ⟨c, member, none⟩ := List.any_eq_true.mp empty
  obtain ⟨l, inside, -⟩ := model.2 c member
  simp only [Clause.isEmpty, List.isEmpty_iff] at none
  simp [none] at inside

theorem Demand.Justified.occurs {g : Formula} {d : Demand} (justified : d.Justified g)
    {l : Literal} (asserts : d = .unit l ∨ d = .split l) : l ∈ g.literals := by
  rcases asserts with rfl | rfl
  · exact Formula.mem_literals.mpr ⟨_, justified, List.mem_singleton_self l⟩
  · exact justified

/-- The assignment in which exactly the variables asserted positively are true. -/
def modelAsserting (n : Nat) (trail : List Literal) : Assignment :=
  ⟨Array.ofFn fun i : Fin n => decide ((⟨(i.val : Int) + 1⟩ : Literal) ∈ trail)⟩

theorem size_modelAsserting (n : Nat) (trail : List Literal) :
    (modelAsserting n trail).size = n := Array.size_ofFn

private theorem positive_eq_iff {l : Literal} (valid : l.Valid) (i : Nat) :
    (⟨(i : Int) + 1⟩ : Literal) = l ↔ l.var - 1 = i ∧ l.isPositive = true := by
  have nonzero := valid.1
  rcases l with ⟨value⟩
  simp only [Literal.mk.injEq, Literal.var, Literal.isPositive, decide_eq_true_eq] at nonzero ⊢
  omega

/-- A trail of valid literals over distinct variables that occur in a formula. -/
structure Proper (f : Formula) (trail : List Literal) : Prop where
  distinct : (trail.map Literal.var).Nodup
  occurs : ∀ l ∈ trail, l.Valid ∧ l.var ∈ f.vars

namespace Proper

variable {f : Formula} {l : Literal} {trail : List Literal}

theorem nil (f : Formula) : Proper f [] := ⟨List.nodup_nil, by simp⟩

theorem tail (proper : Proper f (l :: trail)) : Proper f trail where
  distinct := (List.nodup_cons.mp proper.distinct).2
  occurs k member := proper.occurs k (List.mem_cons_of_mem l member)

theorem fresh (proper : Proper f (l :: trail)) : ∀ k ∈ trail, k.var ≠ l.var := by
  intro k member same
  exact (List.nodup_cons.mp proper.distinct).1 (List.mem_map.mpr ⟨k, member, same⟩)

theorem cons (proper : Proper f trail) (valid : l.Valid)
    (left : l.var ∈ (f.restrictAll trail).vars) : Proper f (l :: trail) := by
  obtain ⟨occurs, fresh⟩ := Finset.mem_sdiff.mp (Formula.vars_restrictAll_subset f trail left)
  refine ⟨List.nodup_cons.mpr ⟨by simpa using fresh, proper.distinct⟩, ?_⟩
  intro k member
  rcases List.mem_cons.mp member with rfl | older
  · exact ⟨valid, occurs⟩
  · exact proper.occurs k older

theorem covered (proper : Proper f trail) (wellFormed : f.WellFormed) (member : l ∈ trail) :
    l.var ≤ f.numVars := by
  obtain ⟨k, occurs, same⟩ := Formula.mem_vars.mp (proper.occurs l member).2
  exact same ▸ (wellFormed.of_mem_literals occurs).2

end Proper

private theorem set_modelAsserting {f : Formula} {l : Literal} {trail : List Literal}
    (wellFormed : f.WellFormed) (proper : Proper f (l :: trail)) :
    (modelAsserting f.numVars trail).set l.var l.isPositive =
      .ok (modelAsserting f.numVars (l :: trail)) := by
  have valid := (proper.occurs l List.mem_cons_self).1
  have positive := valid.var_pos
  have inside : l.var ≤ (modelAsserting f.numVars trail).size := by
    rw [size_modelAsserting]
    exact proper.covered wellFormed List.mem_cons_self
  rw [Assignment.set, dif_pos ⟨positive, inside⟩]
  congr 2
  ext i below below'
  · simp [modelAsserting]
  · have unseen : (⟨(i : Int) + 1⟩ : Literal) ∈ trail → l.var - 1 ≠ i := by
      intro member same
      have place : (i + 1 : Int).natAbs = i + 1 := by omega
      apply proper.fresh _ member
      simp only [Literal.var, place] at positive same ⊢
      omega
    simp only [modelAsserting, Array.getElem_set, Array.getElem_ofFn, List.mem_cons,
      positive_eq_iff valid]
    by_cases here : l.var - 1 = i
    · have absent : (⟨(i : Int) + 1⟩ : Literal) ∉ trail := fun member => unseen member here
      simp [here, absent]
    · simp [here]

private theorem modelOfTrail_eq {f : Formula} {trail : List Literal} (wellFormed : f.WellFormed)
    (proper : Proper f trail) :
    modelOfTrail f.numVars trail = .ok (modelAsserting f.numVars trail) := by
  induction trail with
  | nil =>
    simp only [modelOfTrail, modelAsserting, Assignment.allFalse, List.foldrM_nil, pure_eq_ok,
      Except.ok.injEq, Assignment.mk.injEq]
    ext i below below' <;> simp
  | cons l trail ih =>
    have rest := ih proper.tail
    rw [modelOfTrail] at rest ⊢
    rw [List.foldrM_cons, rest, ok_bind]
    exact set_modelAsserting wellFormed proper

theorem agrees_modelAsserting {f : Formula} {trail : List Literal} (wellFormed : f.WellFormed)
    (proper : Proper f trail) : (modelAsserting f.numVars trail).Agrees trail := by
  intro l member
  have valid := (proper.occurs l member).1
  have positive := valid.var_pos
  have bound := proper.covered wellFormed member
  have inside : l.var - 1 < f.numVars := by omega
  have polarity : (⟨((l.var - 1 : Nat) : Int) + 1⟩ : Literal) ∈ trail ↔ l.isPositive = true := by
    constructor
    · intro asserted
      have same : (⟨((l.var - 1 : Nat) : Int) + 1⟩ : Literal).var = l.var := by
        simp only [Literal.var] at positive ⊢
        omega
      have equal := List.inj_on_of_nodup_map proper.distinct asserted member same
      exact ((positive_eq_iff valid _).mp equal).2
    · intro sign
      rw [(positive_eq_iff valid _).mpr ⟨rfl, sign⟩]
      exact member
  refine ⟨positive, ?_⟩
  simp [modelAsserting, inside, polarity]

/-- A frame that stands for the formula under search, restricted by its trail. -/
structure Frame.Sound (f : Formula) (fr : Frame) : Prop where
  formula : fr.formula = .ok (f.restrictAll fr.trail)
  proper : Proper f fr.trail

theorem Frame.sound_root (f : Formula) : (Frame.root f).Sound f := ⟨rfl, Proper.nil f⟩

theorem Frame.Sound.child {f : Formula} {fr : Frame} {l : Literal} (sound : fr.Sound f)
    (valid : l.Valid) (left : l.var ∈ (f.restrictAll fr.trail).vars) :
    (fr.child (f.restrictAll fr.trail) l).Sound f where
  formula := Formula.reduce_of_valid valid
  proper := sound.proper.cons valid left

theorem Frame.Sound.expand_eq {f : Formula} {fr : Frame} (wellFormed : f.WellFormed)
    (sound : fr.Sound f) :
    fr.expand f.numVars = .ok (match demand (f.restrictAll fr.trail) with
      | .solved => .model (modelAsserting f.numVars fr.trail)
      | .falsified => .conflict
      | .unit l => .next [fr.child (f.restrictAll fr.trail) l]
      | .split l => .next [fr.child (f.restrictAll fr.trail) l,
          fr.child (f.restrictAll fr.trail) (-l)]) := by
  have wellFormedLeft := wellFormed.restrictAll fr.trail
  rw [Frame.expand, sound.formula, ok_bind]
  generalize f.restrictAll fr.trail = g at wellFormedLeft
  unfold demand
  by_cases none : g.clauses.isEmpty
  · simp [none, modelOfTrail_eq wellFormed sound.proper]
  · by_cases empty : g.hasEmptyClause
    · simp [none, empty]
    · cases unit : g.clauses.findSome? Clause.unit? with
      | some l => simp [none, empty]
      | none =>
        simp only [none, empty, branchLiteral?_eq_argmax wellFormedLeft]
        cases best : g.literals.argmax g.literals.count with
        | some l =>
          have valid := (wellFormedLeft.of_mem_literals (List.argmax_mem best)).1
          simp [Literal.opposite_of_valid valid]
        | none =>
          have bare := List.argmax_eq_none.mp best
          exact absurd (exists_empty_of_literals_eq_nil (by simpa using none) bare) empty

end SatLab.Search
