import SatLab.Incidence.Graph
import SatLab.Proofs.Cnf.Degree
/-!
The edges of clauses. The edges of a clause are noted literal by literal, so they follow the first
occurrences of its variables and tell the signs of all of them.
-/

set_option autoImplicit false
set_option relaxedAutoImplicit false

namespace SatLab.Incidence

/-- A variable is in a list of literals with a sign. -/
def HasSign (ls : List Literal) (v : Nat) (positive : Bool) : Prop :=
  ∃ l ∈ ls, l.var = v ∧ l.isPositive = positive

/-- How a variable occurs in a list of literals: with one sign only, or with both. -/
def Occurs (ls : List Literal) (v : Nat) : Polarity → Prop
  | .positive => HasSign ls v true ∧ ¬ HasSign ls v false
  | .negative => HasSign ls v false ∧ ¬ HasSign ls v true
  | .mixed => HasSign ls v true ∧ HasSign ls v false

/-- A variable is met before another one in a list of literals. -/
def FirstBefore (ls : List Literal) (v w : Nat) : Prop :=
  (ls.map Literal.var).idxOf v < (ls.map Literal.var).idxOf w

private theorem Polarity.exists_iff {P : Polarity → Prop} :
    (∃ p, P p) ↔ P .positive ∨ P .negative ∨ P .mixed := by
  constructor
  · rintro ⟨_ | _ | _, holds⟩ <;> simp [holds]
  · rintro (holds | holds | holds) <;> exact ⟨_, holds⟩

section Occurs

variable {ls : List Literal} {l : Literal} {v w : Nat} {p : Polarity}

private theorem hasSign_append_single {positive : Bool} : HasSign (ls ++ [l]) v positive ↔
    HasSign ls v positive ∨ l.var = v ∧ l.isPositive = positive := by
  simp [HasSign, or_and_right, exists_or]

private theorem occurs_append_single_of_ne (other : l.var ≠ v) :
    Occurs (ls ++ [l]) v p ↔ Occurs ls v p := by
  cases p <;> simp [Occurs, hasSign_append_single, other]

private theorem occurs_append_single_of_eq (same : l.var = v) : Occurs (ls ++ [l]) v p ↔
    (∃ q, Occurs ls v q ∧ p = q.join (.ofLiteral l)) ∨
      (∀ q, ¬ Occurs ls v q) ∧ p = .ofLiteral l := by
  rw [← not_exists, Polarity.exists_iff, Polarity.exists_iff]
  by_cases positive : HasSign ls v true <;> by_cases negative : HasSign ls v false <;>
    cases sign : l.isPositive <;> cases p <;>
    simp [Occurs, hasSign_append_single, same, sign, positive, negative, Polarity.ofLiteral,
      Polarity.join]

private theorem firstBefore_append_single (mem : v ∈ ls.map Literal.var)
    (mem' : w ∈ ls.map Literal.var) : FirstBefore (ls ++ [l]) v w ↔ FirstBefore ls v w := by
  rw [FirstBefore, List.map_append, List.idxOf_append_of_mem mem, List.idxOf_append_of_mem mem',
    FirstBefore]

private theorem firstBefore_of_notMem (mem : v ∈ ls.map Literal.var)
    (fresh : l.var ∉ ls.map Literal.var) : FirstBefore (ls ++ [l]) v l.var := by
  rw [FirstBefore, List.map_append, List.idxOf_append_of_mem mem, List.idxOf_append_of_notMem fresh]
  have inside := List.idxOf_lt_length_of_mem mem
  omega

end Occurs

section Noted

variable {seen : List (Nat × Polarity)} {l : Literal} {v : Nat} {p : Polarity}

private theorem addOccurrence_of_mem (known : l.var ∈ seen.map Prod.fst) : addOccurrence seen l =
    seen.map fun o => if o.1 = l.var then (o.1, o.2.join (.ofLiteral l)) else o := by
  rw [addOccurrence, if_pos (by simpa using known)]

private theorem addOccurrence_of_notMem (fresh : l.var ∉ seen.map Prod.fst) :
    addOccurrence seen l = seen ++ [(l.var, .ofLiteral l)] := by
  rw [addOccurrence, if_neg (by simpa using fresh)]

private theorem map_fst_addOccurrence (seen : List (Nat × Polarity)) (l : Literal) :
    (addOccurrence seen l).map Prod.fst =
      if l.var ∈ seen.map Prod.fst then seen.map Prod.fst else seen.map Prod.fst ++ [l.var] := by
  split
  · next known =>
    rw [addOccurrence_of_mem known, List.map_map]
    apply List.map_congr_left
    intro o listed
    dsimp only [Function.comp]
    split <;> rfl
  · next fresh => simp [addOccurrence_of_notMem fresh]

private theorem mem_addOccurrence_of_ne (other : l.var ≠ v) :
    (v, p) ∈ addOccurrence seen l ↔ (v, p) ∈ seen := by
  by_cases known : l.var ∈ seen.map Prod.fst
  · rw [addOccurrence_of_mem known, List.mem_map]
    constructor
    · rintro ⟨o, listed, same⟩
      split at same
      · next here =>
        cases same
        exact absurd here.symm other
      · exact same ▸ listed
    · intro listed
      exact ⟨(v, p), listed, if_neg other.symm⟩
  · rw [addOccurrence_of_notMem known]
    simp [other.symm]

private theorem mem_addOccurrence_of_eq (same : l.var = v) :
    (v, p) ∈ addOccurrence seen l ↔
      (∃ q, (v, q) ∈ seen ∧ p = q.join (.ofLiteral l)) ∨
        (∀ q, (v, q) ∉ seen) ∧ p = .ofLiteral l := by
  subst same
  by_cases known : l.var ∈ seen.map Prod.fst
  · have met : ¬ ∀ q, (l.var, q) ∉ seen := by simpa using known
    rw [addOccurrence_of_mem known, List.mem_map, or_iff_left fun new => met new.1]
    constructor
    · rintro ⟨⟨w, q⟩, listed, joined⟩
      dsimp only at joined
      split at joined
      · next here =>
        cases joined
        exact ⟨q, listed, rfl⟩
      · next other =>
        cases joined
        exact absurd rfl other
    · rintro ⟨q, listed, rfl⟩
      exact ⟨(l.var, q), listed, if_pos rfl⟩
  · have unmet : ∀ q, (l.var, q) ∉ seen := by simpa using known
    rw [addOccurrence_of_notMem known]
    simp [unmet]

end Noted

section Occurrences

variable {ls : List Literal} {v : Nat} {p : Polarity}

private theorem occurrences_append_single (ls : List Literal) (l : Literal) :
    occurrences ⟨ls ++ [l]⟩ = addOccurrence (occurrences ⟨ls⟩) l :=
  List.foldl_concat ..

private theorem mem_occurrences_iff : (v, p) ∈ occurrences ⟨ls⟩ ↔ Occurs ls v p := by
  induction ls using List.reverseRecOn generalizing p with
  | nil => cases p <;> simp [occurrences, Occurs, HasSign]
  | append_singleton ls l ih =>
    -- A further literal changes what is known of its own variable only.
    rw [occurrences_append_single]
    by_cases same : l.var = v
    · rw [mem_addOccurrence_of_eq same, occurs_append_single_of_eq same]
      simp only [ih]
    · rw [mem_addOccurrence_of_ne same, occurs_append_single_of_ne same, ih]

private theorem mem_map_fst_occurrences_iff :
    v ∈ (occurrences ⟨ls⟩).map Prod.fst ↔ v ∈ ls.map Literal.var := by
  induction ls using List.reverseRecOn with
  | nil => rfl
  | append_singleton ls l ih =>
    rw [occurrences_append_single, map_fst_addOccurrence, List.map_append, List.mem_append, ← ih]
    split
    · next known =>
      rw [List.map_singleton, List.mem_singleton]
      exact (or_iff_left_of_imp fun same => same ▸ known).symm
    · exact List.mem_append

private theorem pairwise_occurrences (ls : List Literal) :
    ((occurrences ⟨ls⟩).map Prod.fst).Pairwise (FirstBefore ls) := by
  induction ls using List.reverseRecOn with
  | nil => exact .nil
  | append_singleton ls l ih =>
    have kept : ((occurrences ⟨ls⟩).map Prod.fst).Pairwise (FirstBefore (ls ++ [l])) := by
      refine ih.imp_of_mem fun mem mem' before => ?_
      exact (firstBefore_append_single (mem_map_fst_occurrences_iff.mp mem)
        (mem_map_fst_occurrences_iff.mp mem')).mpr before
    rw [occurrences_append_single, map_fst_addOccurrence]
    split
    · exact kept
    · next fresh =>
      refine List.pairwise_append.mpr ⟨kept, List.pairwise_singleton .., fun v mem w new => ?_⟩
      obtain rfl := List.mem_singleton.mp new
      exact firstBefore_of_notMem (mem_map_fst_occurrences_iff.mp mem)
        (mt mem_map_fst_occurrences_iff.mpr fresh)

end Occurrences

section Edges

variable {cs : List Clause} {v k : Nat} {p : Polarity}

theorem mem_edgesFrom_iff : ⟨v, k, p⟩ ∈ edgesFrom 0 cs ↔
    ∃ c, cs[k]? = some c ∧ Occurs c.literals v p := by
  simp only [edgesFrom, List.mem_flatMap, List.mem_map, Prod.exists,
    List.mk_mem_zipIdx_iff_getElem?, ← mem_occurrences_iff]
  constructor
  · rintro ⟨c, place, found, w, q, noted, same⟩
    cases same
    exact ⟨c, found, noted⟩
  · rintro ⟨c, found, noted⟩
    exact ⟨c, k, found, v, p, noted, rfl⟩

theorem exists_mem_edgesFrom_iff : (∃ e ∈ edgesFrom 0 cs, e.var = v ∧ e.clause = k) ↔
    ∃ c, cs[k]? = some c ∧ ∃ l ∈ c.literals, l.var = v := by
  constructor
  · rintro ⟨⟨v, k, p⟩, mem, rfl, rfl⟩
    obtain ⟨c, found, occurs⟩ := mem_edgesFrom_iff.mp mem
    have noted := List.mem_map_of_mem (f := Prod.fst) (mem_occurrences_iff.mpr occurs)
    exact ⟨c, found, List.mem_map.mp (mem_map_fst_occurrences_iff.mp noted)⟩
  · rintro ⟨c, found, occurs⟩
    obtain ⟨⟨w, p⟩, noted, rfl⟩ :=
      List.mem_map.mp (mem_map_fst_occurrences_iff.mpr (List.mem_map.mpr occurs))
    exact ⟨⟨w, k, p⟩, mem_edgesFrom_iff.mpr ⟨c, found, mem_occurrences_iff.mp noted⟩, rfl, rfl⟩

/-- Edges are listed clause after clause, and those of a clause as their variables are met. -/
def Edge.Before (cs : List Clause) (d e : Edge) : Prop :=
  d.clause < e.clause ∨ d.clause = e.clause ∧
    ∃ c, cs[d.clause]? = some c ∧ FirstBefore c.literals d.var e.var

theorem pairwise_edgesFrom (cs : List Clause) :
    (edgesFrom 0 cs).Pairwise (Edge.Before cs) := by
  rw [edgesFrom, List.pairwise_flatMap]
  constructor
  · rintro ⟨c, place⟩ numbered
    have found := List.mk_mem_zipIdx_iff_getElem?.mp numbered
    refine List.pairwise_map.mpr ((List.pairwise_map.mp (pairwise_occurrences c.literals)).imp ?_)
    intro o o' before
    exact .inr ⟨rfl, c, found, before⟩
  · refine (pairwise_zipIdx cs 0).imp ?_
    intro q q' places d mem e mem'
    obtain ⟨o, -, rfl⟩ := List.mem_map.mp mem
    obtain ⟨o', -, rfl⟩ := List.mem_map.mp mem'
    exact .inl places

theorem Edge.Before.ne {d e : Edge} (before : d.Before cs e) :
    (d.var, d.clause) ≠ (e.var, e.clause) := by
  intro same
  obtain ⟨vars, clauses⟩ := Prod.mk.inj same
  rcases before with earlier | ⟨-, c, -, first⟩
  · exact absurd clauses earlier.ne
  · rw [vars] at first
    exact absurd first (Nat.lt_irrefl _)

end Edges

end SatLab.Incidence
