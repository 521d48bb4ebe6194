import Mathlib.Algebra.Ring.Nat
import Mathlib.Data.List.MinMax
import SatLab.Proofs.Cnf.Restriction
import SatLab.Search.Branching
/-!
The branching rule picks, of the literals of a well-formed formula, the first of those that occur
most often. The table of counts is exact, and the literals seen for the first time compete as all
occurrences would.
-/

set_option autoImplicit false
set_option relaxedAutoImplicit false

namespace SatLab.Formula

/-- The number of occurrences of a literal in all clauses, repetitions counted. -/
def frequency (f : Formula) (l : Literal) : Nat :=
  (f.clauses.map fun c => c.literals.count l).sum

private theorem frequency_eq_count (f : Formula) (l : Literal) :
    f.frequency l = f.literals.count l := by
  rw [frequency, literals, List.count_flatMap]
  rfl

/-- A literal that occurs as often as any other, and more often than every literal whose first
occurrence is earlier in clause order. -/
structure MostFrequent (f : Formula) (l : Literal) : Prop where
  occurs : l ∈ f.literals
  most : ∀ k, f.frequency k ≤ f.frequency l
  first : ∀ k, f.literals.idxOf k < f.literals.idxOf l → f.frequency k < f.frequency l

private theorem mostFrequent_iff_argmax {f : Formula} {l : Literal} :
    f.MostFrequent l ↔ f.literals.argmax f.literals.count = some l := by
  rw [List.argmax_eq_some_iff]
  constructor
  · rintro ⟨occurs, most, first⟩
    simp only [frequency_eq_count] at most first
    refine ⟨occurs, fun k _ => most k, fun k _ asOften => ?_⟩
    by_contra earlier
    exact absurd asOften (Nat.not_le.mpr (first k (Nat.lt_of_not_le earlier)))
  · rintro ⟨occurs, most, first⟩
    refine ⟨occurs, fun k => ?_, fun k earlier => ?_⟩
    · rw [frequency_eq_count, frequency_eq_count]
      by_cases member : k ∈ f.literals
      · exact most k member
      · rw [List.count_eq_zero_of_not_mem member]
        exact Nat.zero_le _
    · have member : k ∈ f.literals := by
        apply List.idxOf_lt_length_iff.mp
        exact earlier.trans (List.idxOf_lt_length_iff.mpr occurs)
      rw [frequency_eq_count, frequency_eq_count]
      by_contra asOften
      exact absurd earlier (Nat.not_lt.mpr (first k member (Nat.le_of_not_lt asOften)))

end SatLab.Formula

namespace SatLab.Search

def place (l : Literal) : Nat := 2 * (l.var - 1) + if l.isPositive then 0 else 1

private theorem slot_of_valid {l : Literal} (valid : l.Valid) : slot l = .ok (place l) := by
  rw [slot, Literal.index_of_valid valid]
  rfl

theorem place_lt {n : Nat} {l : Literal} (valid : l.Valid) (bound : l.var ≤ n) :
    place l < 2 * n := by
  have positive := valid.var_pos
  unfold place
  split <;> omega

private theorem place_injective {k l : Literal} (validK : k.Valid) (validL : l.Valid)
    (same : place k = place l) : k = l := by
  have positiveK := validK.var_pos
  have positiveL := validL.var_pos
  have parts : k.var = l.var ∧ k.isPositive = l.isPositive := by
    unfold place at same
    cases polarityK : k.isPositive <;> cases polarityL : l.isPositive <;>
      simp [polarityK, polarityL] at same ⊢ <;> omega
  exact Literal.eq_of_var_eq parts.1 parts.2

namespace Tally

/-- The tally of the literals counted so far: exact counts, and literals seen that compete for
the first place under any score as the literals counted do. -/
structure Counts (n : Nat) (done : List Literal) (t : Tally) : Prop where
  size : t.counts.size = 2 * n
  count : ∀ k : Literal, k.Valid → k.var ≤ n → t.counts[place k]? = some (done.count k)
  seen : ∀ k, k ∈ t.seen ↔ k ∈ done
  first : ∀ score : Literal → Nat, t.seen.reverse.argmax score = done.argmax score

private theorem counts_start (n : Nat) : Counts n [] ⟨Array.replicate (2 * n) 0, []⟩ where
  size := Array.size_replicate
  count k valid bound := by simp [place_lt valid bound]
  seen k := Iff.rfl
  first score := rfl

private theorem argmax_append_of_mem {done : List Literal} {l : Literal} (member : l ∈ done)
    (score : Literal → Nat) : (done ++ [l]).argmax score = done.argmax score := by
  rw [List.argmax_concat]
  cases best : done.argmax score with
  | none => simp [List.argmax_eq_none.mp best] at member
  | some k =>
    have notMore : ¬ score k < score l := Nat.not_lt.mpr (List.le_of_mem_argmax member best)
    simp [notMore]

private theorem counts_add {n : Nat} {done : List Literal} {t : Tally} (counts : Counts n done t)
    {l : Literal} (valid : l.Valid) (bound : l.var ≤ n) :
    ∃ t', t.add l = .ok t' ∧ Counts n (done ++ [l]) t' := by
  have inside : place l < t.counts.size := counts.size ▸ place_lt valid bound
  have entry : t.counts[place l] = done.count l := by
    simpa [Array.getElem?_eq_getElem inside] using counts.count l valid bound
  have fresh : t.counts[place l] = 0 ↔ l ∉ done := by
    rw [entry, List.count_eq_zero]
  refine ⟨⟨t.counts.set (place l) (t.counts[place l] + 1),
    if t.counts[place l] = 0 then l :: t.seen else t.seen⟩, ?_, ?_, ?_, ?_, ?_⟩
  · rw [add, slot_of_valid valid]
    simp [inside, bind, Except.bind, pure, Except.pure]
  · simpa using counts.size
  · intro k validK boundK
    rw [Array.getElem?_set, List.count_append, List.count_singleton]
    by_cases same : l = k
    · subst same
      simp [entry]
    · have apart : place l ≠ place k := fun equal => same (place_injective valid validK equal)
      simpa [apart, same] using counts.count k validK boundK
  · intro k
    by_cases new : t.counts[place l] = 0
    · simp [new, counts.seen, or_comm]
    · have old : l ∈ done := by simpa using mt fresh.mpr new
      simp only [new, if_false, counts.seen, List.mem_append, List.mem_singleton, iff_self_or]
      rintro rfl
      exact old
  · intro score
    by_cases new : t.counts[place l] = 0
    · simp only [new, if_true, List.reverse_cons, List.argmax_concat, counts.first]
    · have old : l ∈ done := by simpa using mt fresh.mpr new
      simp only [new, if_false, counts.first, argmax_append_of_mem old]

private theorem counts_foldlM {n : Nat} {ls : List Literal} (valid : ∀ l ∈ ls, l.Valid ∧ l.var ≤ n)
    {done : List Literal} {t : Tally} (counts : Counts n done t) :
    ∃ t', ls.foldlM add t = .ok t' ∧ Counts n (done ++ ls) t' := by
  induction ls generalizing done t with
  | nil => exact ⟨t, rfl, by simpa using counts⟩
  | cons l ls ih =>
    have here := valid l List.mem_cons_self
    obtain ⟨next, added, counted⟩ := counts_add counts here.1 here.2
    have rest := fun k member => valid k (List.mem_cons_of_mem l member)
    obtain ⟨last, folded, all⟩ := ih rest counted
    refine ⟨last, ?_, by simpa using all⟩
    rw [List.foldlM_cons, added]
    exact folded

private theorem counts_ofFormula {f : Formula} (wellFormed : f.WellFormed) :
    ∃ t, ofFormula f = .ok t ∧ Counts f.numVars f.literals t := by
  have valid := fun l (occurs : l ∈ f.literals) => wellFormed.of_mem_literals occurs
  simpa [ofFormula] using counts_foldlM valid (counts_start f.numVars)

private theorem count_of_counts {n : Nat} {done : List Literal} {t : Tally}
    (counts : Counts n done t) {l : Literal} (valid : l.Valid) (bound : l.var ≤ n) :
    t.count l = .ok (done.count l) := by
  rw [count, slot_of_valid valid]
  simp [bind, Except.bind, counts.count l valid bound, pure, Except.pure]

private theorem foldlM_better {n : Nat} {done : List Literal} {t : Tally} (counts : Counts n done t)
    {ls : List Literal} (valid : ∀ l ∈ ls, l.Valid ∧ l.var ≤ n) (best : Option Literal) :
    ls.foldlM t.better (best.map fun k => (k, done.count k)) =
      .ok ((ls.foldl (List.argAux fun k l => done.count l < done.count k) best).map
        fun k => (k, done.count k)) := by
  induction ls generalizing best with
  | nil => rfl
  | cons l ls ih =>
    have here := valid l List.mem_cons_self
    have rest := ih fun k member => valid k (List.mem_cons_of_mem l member)
    have one : t.better (best.map fun k => (k, done.count k)) l =
        .ok ((List.argAux (fun k l => done.count l < done.count k) best l).map
          fun k => (k, done.count k)) := by
      rw [better, count_of_counts counts here.1 here.2]
      cases best with
      | none => rfl
      | some k =>
        simp only [bind, Except.bind, Option.map_some, List.argAux, pure, Except.pure]
        split <;> rfl
    rw [List.foldlM_cons, one, List.foldl_cons]
    exact rest _

end Tally

theorem branchLiteral?_eq_argmax {f : Formula} (wellFormed : f.WellFormed) :
    branchLiteral? f = .ok (f.literals.argmax f.literals.count) := by
  obtain ⟨t, tallied, counts⟩ := Tally.counts_ofFormula wellFormed
  have valid : ∀ l ∈ t.seen.reverse, l.Valid ∧ l.var ≤ f.numVars := by
    intro l member
    exact wellFormed.of_mem_literals ((counts.seen l).mp (List.mem_reverse.mp member))
  have chosen := Tally.foldlM_better counts valid none
  have first := counts.first f.literals.count
  rw [List.argmax] at first
  rw [branchLiteral?, tallied]
  change (t.seen.reverse.foldlM t.better none >>= _) = _
  rw [Option.map_none] at chosen
  rw [chosen, first]
  simp [bind, Except.bind, pure, Except.pure, Function.comp_def]

/-- The branching rule gives an answer for every well-formed formula. It gives no literal exactly
when no clause holds one, and it gives a literal exactly when that is the first of the most
frequent ones. -/
theorem branch_mostFrequent {f : Formula} (wellFormed : f.WellFormed) :
    ∃ branch, branchLiteral? f = .ok branch ∧
      (branch = none ↔ ∀ c ∈ f.clauses, c.literals = []) ∧
      ∀ l, branch = some l ↔ f.MostFrequent l := by
  refine ⟨_, branchLiteral?_eq_argmax wellFormed, ?_, fun l => ?_⟩
  · rw [List.argmax_eq_none, Formula.literals, List.flatMap_eq_nil_iff]
  · exact Formula.mostFrequent_iff_argmax.symm

/-- Two literals that occur twice; the one over the second variable is seen first. -/
def tiedPair : Formula := ⟨4, [⟨[⟨2⟩, ⟨1⟩]⟩, ⟨[⟨1⟩, ⟨2⟩, ⟨-3⟩]⟩]⟩

theorem tiedPair_branch : tiedPair.WellFormed ∧ branchLiteral? tiedPair = .ok (some ⟨2⟩) ∧
    tiedPair.frequency ⟨1⟩ = tiedPair.frequency ⟨2⟩ ∧ tiedPair.MostFrequent ⟨2⟩ := by
  have wellFormed : tiedPair.WellFormed := by decide
  obtain ⟨branch, answered, -, leads⟩ := branch_mostFrequent wellFormed
  have chosen : branchLiteral? tiedPair = .ok (some ⟨2⟩) := rfl
  cases answered.symm.trans chosen
  exact ⟨wellFormed, chosen, rfl, (leads _).mp rfl⟩

end SatLab.Search
