import Mathlib.Data.Finset.Card
import Mathlib.Data.List.Sort
import Mathlib.Order.Interval.Finset.Nat
import SatLab.Backbone.Prediction
import SatLab.Proofs.Cnf.Degree
/-!
What degrees predict. A prediction takes the first variables of a ranking, in which every variable
outranks those behind it. As many guesses as there are variables to find hit some of them whatever
the ranking is, when these are more than half of all variables.
-/

set_option autoImplicit false
set_option relaxedAutoImplicit false

namespace SatLab

namespace Formula

/-- A variable outranks those of a lower degree, and of its own degree those of a higher index. -/
def Outranks (f : Formula) (v w : Nat) : Prop :=
  f.degree w < f.degree v ∨ f.degree v = f.degree w ∧ v < w

/-- The variables of the highest ranks, ascending: as many as asked for, or all of them. -/
structure Leading (f : Formula) (size : Nat) (vars : List Nat) : Prop where
  length : vars.length = min size f.numVars
  ascending : vars.Pairwise (· < ·)
  range : ∀ v ∈ vars, 1 ≤ v ∧ v ≤ f.numVars
  outrank : ∀ v ∈ vars, ∀ w, 1 ≤ w → w ≤ f.numVars → w ∉ vars → f.Outranks v w

/-- An order of all variables in which each one outranks those behind it. -/
structure Ranking (f : Formula) (order : List Nat) : Prop where
  perm : order.Perm (List.range' 1 f.numVars)
  outrank : order.Pairwise f.Outranks

namespace Ranking

variable {f : Formula} {order : List Nat}

theorem nodup (ranking : f.Ranking order) : order.Nodup :=
  ranking.perm.nodup_iff.mpr List.nodup_range'

theorem length (ranking : f.Ranking order) : order.length = f.numVars :=
  ranking.perm.length_eq.trans List.length_range'

private theorem mem_iff (ranking : f.Ranking order) {v : Nat} :
    v ∈ order ↔ 1 ≤ v ∧ v ≤ f.numVars := by
  rw [ranking.perm.mem_iff, List.mem_range'_1]
  omega

end Ranking

end Formula

namespace Backbone

section Ranked

variable {x y z : Nat × Nat}

private theorem rankedBefore_iff : rankedBefore x y = true ↔ y.1 < x.1 ∨ x.1 = y.1 ∧ x.2 ≤ y.2 := by
  simp [rankedBefore]

private theorem rankedBefore_trans (first : rankedBefore x y = true)
    (second : rankedBefore y z = true) : rankedBefore x z = true := by
  rw [rankedBefore_iff] at first second ⊢
  omega

private theorem rankedBefore_total : (rankedBefore x y || rankedBefore y x) = true := by
  rw [Bool.or_eq_true, rankedBefore_iff, rankedBefore_iff]
  omega

private theorem pairwise_mergeSort_rankedBefore (table : List (Nat × Nat)) :
    (table.mergeSort rankedBefore).Pairwise fun x y => rankedBefore x y = true :=
  List.pairwise_mergeSort (fun x y z => @rankedBefore_trans x y z)
    (fun x y => @rankedBefore_total x y) table

end Ranked

variable {f : Formula}

theorem predict_eq_table (f : Formula) (size : Nat) : predict f size = f.degrees >>= fun d =>
    .ok ((((((d.toList.zipIdx 1).take (lowHalf d.size)).mergeSort rankedBefore).take size).map
      Prod.snd).mergeSort (· ≤ ·)) := by
  have table : (((List.range' 1 f.numVars).map f.degree).zipIdx 1).take (lowHalf f.numVars) =
      (List.range' 1 (lowHalf f.numVars)).map fun v => (f.degree v, v) := by
    have fewer := lowHalf_le f.numVars
    apply List.ext_getElem
    · simp
      omega
    · intro i here there
      simp [Nat.add_comm]
  rw [predict, Formula.degrees_eq, bind_assoc]
  refine bind_congr fun _ => ?_
  simp only [ok_bind, List.size_toArray, List.length_map, List.length_range', table]
  rfl

private theorem lookUpAll_of_wellFormed (wellFormed : f.WellFormed) : f.lookUpAll = .ok () := by
  obtain ⟨d, counted, -⟩ := Formula.degrees_of_wellFormed wellFormed
  rw [Formula.degrees_eq] at counted
  cases found : f.lookUpAll with
  | ok => rfl
  | error e =>
    rw [found] at counted
    cases counted

theorem predict_of_wellFormed (wellFormed : f.WellFormed) (size : Nat) :
    predict f size = .ok ((((((List.range' 1 (lowHalf f.numVars)).map fun v =>
      (f.degree v, v)).mergeSort rankedBefore).take size).map Prod.snd).mergeSort (· ≤ ·)) := by
  rw [predict, lookUpAll_of_wellFormed wellFormed]
  rfl

private theorem exists_ranking_of_predict (wellFormed : f.WellFormed)
    (few : f.numVars < halfBound) : ∃ order, f.Ranking order ∧
      ∀ size, predict f size = .ok ((order.take size).mergeSort (· ≤ ·)) := by
  let table := (List.range' 1 f.numVars).map fun v => (f.degree v, v)
  have sorted := pairwise_mergeSort_rankedBefore table
  have same := List.mergeSort_perm table rankedBefore
  have listed : ∀ p ∈ table.mergeSort rankedBefore, p.1 = f.degree p.2 := by
    intro p member
    obtain ⟨v, -, rfl⟩ := List.mem_map.mp (same.mem_iff.mp member)
    rfl
  have perm : ((table.mergeSort rankedBefore).map Prod.snd).Perm (List.range' 1 f.numVars) := by
    have renumbered := same.map Prod.snd
    rw [List.map_map] at renumbered
    exact renumbered.trans (List.Perm.of_eq (List.map_id _))
  have distinct := List.pairwise_map.mp (perm.nodup_iff.mpr List.nodup_range')
  refine ⟨_, ⟨perm, List.pairwise_map.mpr ?_⟩, fun size => ?_⟩
  -- No variable stands in two rows of the table, so equal degrees are ranked strictly.
  · refine (sorted.and distinct).imp_of_mem fun {x y} before behind both => ?_
    have ranked := rankedBefore_iff.mp both.1
    rw [listed x before, listed y behind] at ranked
    have apart := both.2
    show _ ∨ _
    omega
  · rw [predict_of_wellFormed wellFormed, lowHalf_of_lt few, ← List.map_take]

private theorem leading_of_ranking {order : List Nat} (ranking : f.Ranking order) (size : Nat) :
    f.Leading size ((order.take size).mergeSort (· ≤ ·)) := by
  constructor
  case length => rw [List.length_mergeSort, List.length_take, ranking.length]
  case ascending =>
    have distinct : (order.take size).Nodup := ranking.nodup.sublist (List.take_sublist size order)
    have sorted := List.sortedLE_mergeSort.sortedLT_of_nodup (List.nodup_mergeSort.mpr distinct)
    exact sorted.pairwise
  case range =>
    intro v member
    exact ranking.mem_iff.mp (List.mem_of_mem_take (List.mem_mergeSort.mp member))
  case outrank =>
    intro v member w low high other
    rw [List.mem_mergeSort] at member other
    have either : w ∈ order.take size ++ order.drop size := by
      rw [List.take_append_drop]
      exact ranking.mem_iff.mpr ⟨low, high⟩
    have behind : w ∈ order.drop size := (List.mem_append.mp either).resolve_left other
    have outrank := ranking.outrank
    rw [← List.take_append_drop size order, List.pairwise_append] at outrank
    exact outrank.2.2 v member w behind

section Overlap

variable {predicted truth : List Nat}

private theorem overlap_eq_card (distinct : predicted.Nodup) :
    (overlap predicted truth).1 = (predicted.toFinset ∩ truth.toFinset).card := by
  have hits : (overlap predicted truth).1 = predicted.countP truth.contains := by
    rw [overlap]
    split
    · next none =>
      rw [List.isEmpty_iff.mp none]
      exact (List.countP_eq_zero.mpr fun v _ => by simp).symm
    · rfl
  have common : predicted.toFinset ∩ truth.toFinset =
      (predicted.filter truth.contains).toFinset := by
    ext v
    simp
  rw [hits, List.countP_eq_length_filter, common,
    List.toFinset_card_of_nodup (distinct.filter _)]

private theorem length_add_length_le {n : Nat} (distinct : predicted.Nodup)
    (distinct' : truth.Nodup)
    (range : ∀ v ∈ predicted, 1 ≤ v ∧ v ≤ n) (range' : ∀ v ∈ truth, 1 ≤ v ∧ v ≤ n) :
    predicted.length + truth.length ≤ (predicted.toFinset ∩ truth.toFinset).card + n := by
  have inside : predicted.toFinset ∪ truth.toFinset ⊆ Finset.Icc 1 n := by
    intro v member
    rw [Finset.mem_union, List.mem_toFinset, List.mem_toFinset] at member
    exact Finset.mem_Icc.mpr (member.elim (range v) (range' v))
  have few := Finset.card_le_card inside
  have sum := Finset.card_union_add_card_inter predicted.toFinset truth.toFinset
  rw [List.toFinset_card_of_nodup distinct, List.toFinset_card_of_nodup distinct'] at sum
  rw [Nat.card_Icc] at few
  omega

end Overlap

/-- A prediction takes the variables of the highest ranks, and a larger one keeps them. Where it has
the size of the truth, its overlap counts the variables in both; these are at least as many as the
variables to find are more than half of all. -/
theorem predict_leading (wellFormed : f.WellFormed) (few : f.numVars < halfBound) :
    (∀ size, ∃ vars more, predict f size = .ok vars ∧ predict f (size + 1) = .ok more ∧
      f.Leading size vars ∧ vars ⊆ more) ∧
    ∀ truth : List Nat, truth.Nodup → (∀ v ∈ truth, 1 ≤ v ∧ v ≤ f.numVars) →
      ∃ vars, predict f truth.length = .ok vars ∧
        (overlap vars truth).1 = (vars.toFinset ∩ truth.toFinset).card ∧
        (overlap vars truth).1 ≤ truth.length ∧
        2 * truth.length ≤ (overlap vars truth).1 + f.numVars := by
  obtain ⟨order, ranking, predicted⟩ := exists_ranking_of_predict wellFormed few
  constructor
  · intro size
    refine ⟨_, _, predicted size, predicted (size + 1), leading_of_ranking ranking size, ?_⟩
    intro v member
    rw [List.mem_mergeSort] at member ⊢
    exact (List.take_sublist_take_left (Nat.le_succ size)).subset member
  · intro truth distinct range
    have leading := leading_of_ranking ranking truth.length
    have nodup := leading.ascending.imp Nat.ne_of_lt
    have fits : truth.length ≤ f.numVars := by
      rw [← ranking.length]
      exact (distinct.subperm fun v member => ranking.mem_iff.mpr (range v member)).length_le
    have meet := length_add_length_le nodup distinct leading.range range
    rw [leading.length, Nat.min_eq_left fits] at meet
    refine ⟨_, predicted truth.length, overlap_eq_card nodup, ?_, ?_⟩
    · rw [overlap_eq_card nodup, ← List.toFinset_card_of_nodup distinct]
      exact Finset.card_le_card Finset.inter_subset_right
    · rw [overlap_eq_card nodup]
      omega

/-- Two variables with two occurrences each, between two with one. -/
def tied : Formula :=
  ⟨4, [⟨[⟨1⟩, ⟨-2⟩, ⟨3⟩]⟩, ⟨[⟨2⟩, ⟨-3⟩, ⟨4⟩]⟩]⟩

/-- The lower one of two equals is predicted first. Of three guesses for three of four variables at
least two are right, and no more than these are. -/
theorem tied_predict_leading : tied.WellFormed ∧ tied.numVars < halfBound ∧ [4, 3, 1].Nodup ∧
    (∀ v ∈ [4, 3, 1], 1 ≤ v ∧ v ≤ tied.numVars) ∧
    tied.Leading 1 [2] ∧ (overlap [1, 2, 3] [4, 3, 1]).1 = 2 ∧
    2 * 3 ≤ (overlap [1, 2, 3] [4, 3, 1]).1 + tied.numVars := by
  have wellFormed : tied.WellFormed := by decide
  have few : tied.numVars < halfBound := by decide
  have distinct : [4, 3, 1].Nodup := by decide
  have range : ∀ v ∈ [4, 3, 1], 1 ≤ v ∧ v ≤ tied.numVars := by decide
  have table : (List.range' 1 (lowHalf tied.numVars)).map (fun v => (tied.degree v, v)) =
      [(1, 1), (2, 2), (2, 3), (1, 4)] := by decide
  have first : predict tied 1 = .ok [2] := by
    rw [predict_of_wellFormed wellFormed, table]
    simp [List.mergeSort, rankedBefore]
  have three : predict tied 3 = .ok [1, 2, 3] := by
    rw [predict_of_wellFormed wellFormed, table]
    simp [List.mergeSort, rankedBefore]
  obtain ⟨sizes, truths⟩ := predict_leading wellFormed few
  obtain ⟨vars, -, predicted, -, leading, -⟩ := sizes 1
  obtain rfl : [2] = vars := Except.ok.inj (first.symm.trans predicted)
  obtain ⟨vars, predicted, hits, -, floor⟩ := truths [4, 3, 1] distinct range
  obtain rfl : [1, 2, 3] = vars := Except.ok.inj (three.symm.trans predicted)
  exact ⟨wellFormed, few, distinct, range, leading, hits.trans (by decide), floor⟩

/-- As many variables as the cast wraps around to none, and no clauses. -/
def crowded : Formula := ⟨halfBound, []⟩

/-- No variable is predicted where the cast leaves none, although there are variables to take. -/
theorem crowded_unpredicted : crowded.WellFormed ∧ predict crowded 1 = .ok [] ∧
    ¬ ∃ vars, predict crowded 1 = .ok vars ∧ crowded.Leading 1 vars := by
  have wellFormed : crowded.WellFormed := by decide
  have none : predict crowded 1 = .ok [] := by
    have cast : lowHalf crowded.numVars = 0 := by decide
    rw [predict_of_wellFormed wellFormed, cast]
    simp
  refine ⟨wellFormed, none, ?_⟩
  rintro ⟨vars, predicted, leading⟩
  obtain rfl : [] = vars := Except.ok.inj (none.symm.trans predicted)
  have missing : 0 = min 1 halfBound := leading.length
  cases missing

end Backbone

end SatLab
