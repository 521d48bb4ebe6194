import Mathlib.Algebra.Order.BigOperators.Group.List
import Mathlib.Algebra.Order.Ring.Nat
import Mathlib.Data.Fintype.Pi
import SatLab.Proofs.Cnf.Agreement
import SatLab.Proofs.Cnf.Uniform
import SatLab.Proofs.Cost.Seeds
import SatLab.Proofs.Search.Termination
/-!
What a measurement counts. Each instance has a number of steps that the search on it takes when no
limit stops it, and it has a model or not; the totals under a limit are a tally of these data, in
which no search occurs any more.
-/

set_option autoImplicit false
set_option relaxedAutoImplicit false

namespace SatLab

private theorem Formula.satisfiable_iff_exists_values {f : Formula} :
    f.Satisfiable ↔ ∃ values : Fin f.numVars → Bool, f.IsModel ⟨Array.ofFn values⟩ := by
  constructor
  · rintro ⟨⟨values⟩, model⟩
    obtain ⟨numVars, clauses⟩ := f
    obtain rfl : values.size = numVars := model.1
    refine ⟨fun i => values[i], ?_⟩
    simpa using model
  · rintro ⟨values, model⟩
    exact ⟨_, model⟩

instance (f : Formula) : Decidable f.Satisfiable :=
  decidable_of_iff' _ Formula.satisfiable_iff_exists_values

end SatLab

namespace SatLab.Cost

open SatLab.Task
open SatLab.Search (Result Halts solve)
open SatLab.Uniform (Seed)

/-- A formula and the steps of a search on it. -/
structure Case where
  formula : Formula
  steps : Nat

/-- The totals of the searches under a limit, when they take these steps under none. -/
def tally (limit : Nat) (cases : List Case) : Totals where
  steps := (cases.map fun k => min k.steps limit).sum
  maxSteps := min ((cases.map Case.steps).foldl max 0) limit
  satisfiable := cases.countP fun k => k.steps ≤ limit ∧ k.formula.Satisfiable
  unsatisfiable := cases.countP fun k => k.steps ≤ limit ∧ ¬ k.formula.Satisfiable
  inconclusive := cases.countP fun k => limit < k.steps

namespace Case

variable {n limit : Nat} {alpha : Float} {seed : Seed} {k : Case} {r : Result} {sig : Signal}

/-- The instance of a seed, and the steps that the search on it takes under no limit. -/
structure Made (n : Nat) (alpha : Float) (seed : Seed) (k : Case) : Prop where
  drawn : Uniform.ofSeed n alpha seed = .ok k.formula
  halts : ∃ r, Halts k.formula.numVars (.start k.formula) k.steps r

/-- Either the limit does not matter or the search can count beyond it. -/
def Fits (limit : Nat) (k : Case) : Prop := k.steps ≤ limit ∨ limit + 1 < wordBound

inductive Reported (limit : Nat) (k : Case) (r : Result) : Prop
  | decided (within : k.steps ≤ limit) (steps : r.steps = k.steps)
      (verdict : r.outcome.verdict? = some (decide k.formula.Satisfiable))
  | cut (beyond : limit < k.steps) (steps : r.steps = limit) (outcome : r.outcome = .inconclusive)

theorem Made.wellFormed (made : k.Made n alpha seed) : k.formula.WellFormed :=
  (Uniform.drawn_of_ofSeed made.drawn).wellFormed

private theorem exists_made {f : Formula} (drawn : Uniform.ofSeed n alpha seed = .ok f) :
    ∃ k : Case, k.Made n alpha seed ∧ k.formula = f := by
  have wellFormed := (Uniform.drawn_of_ofSeed drawn).wellFormed
  obtain ⟨count, r, halts, -⟩ := Search.solve_halts wellFormed
  exact ⟨⟨f, count⟩, ⟨drawn, r, halts⟩, rfl⟩

theorem Made.steps_le (made : k.Made n alpha seed) : k.steps ≤ 2 ^ (n + 1) - 1 := by
  have drawn := Uniform.drawn_of_ofSeed made.drawn
  have few : k.formula.vars.card ≤ n := by
    have selection : k.formula.Selection [] := ⟨.nil, by simp, by simp⟩
    have card := Formula.card_vars_restrictAll_le drawn.wellFormed selection
    rwa [Formula.restrictAll_nil, drawn.numVars] at card
  obtain ⟨r, halts⟩ := made.halts
  obtain ⟨count, r', halts', bound, -⟩ := Search.solve_halts drawn.wellFormed
  obtain ⟨rfl, -⟩ := halts.unique halts'
  have tree : 2 ^ (k.formula.vars.card + 1) ≤ 2 ^ (n + 1) :=
    Nat.pow_le_pow_right (by omega) (by omega)
  omega

private theorem Made.decides (made : k.Made n alpha seed) (within : k.steps ≤ limit) :
    ∃ r, solve limit k.formula .never = .ok (r, .never) ∧ k.Reported limit r := by
  obtain ⟨r, halts⟩ := made.halts
  have solved : solve limit k.formula .never = .ok (r, .never) := halts.run_eq within
  obtain ⟨answered, steps, -⟩ := halts.counts
  refine ⟨r, solved, .decided within (steps.trans (Nat.zero_add _)) ?_⟩
  have right {b : Bool} := Search.satisfiable_iff_of_solve (b := b) made.wellFormed solved
  cases outcome : r.outcome with
  | satisfiable m => simp [Search.Outcome.verdict?, right (congrArg _ outcome)]
  | unsatisfiable => simp [Search.Outcome.verdict?, right (congrArg _ outcome)]
  | inconclusive => exact absurd outcome answered

theorem Made.cuts (made : k.Made n alpha seed) (beyond : limit < k.steps)
    (word : limit + 1 < wordBound) :
    ∃ r, solve limit k.formula .never = .ok (r, .never) ∧ k.Reported limit r := by
  obtain ⟨r, halts⟩ := made.halts
  obtain ⟨b, -, ran⟩ := halts.run_cut beyond (by simpa [Search.State.start] using word)
  exact ⟨_, ran, .cut beyond (Nat.zero_add limit) rfl⟩

theorem Made.returns (made : k.Made n alpha seed) (fits : k.Fits limit) :
    ∃ r, solve limit k.formula .never = .ok (r, .never) ∧ k.Reported limit r := by
  by_cases within : k.steps ≤ limit
  · exact made.decides within
  · exact made.cuts (not_le.mp within) (fits.resolve_left within)

theorem Made.reported (made : k.Made n alpha seed)
    (solved : solve limit k.formula .never = .ok (r, sig)) :
    k.Fits limit ∧ k.Reported limit r ∧ sig = .never := by
  have fits : k.Fits limit := by
    by_cases within : k.steps ≤ limit
    · exact .inl within
    · obtain ⟨full, halts⟩ := made.halts
      have word := halts.word_of_run (not_le.mp within) solved
      exact .inr (by simpa [Search.State.start] using word)
  obtain ⟨r', solved', reported⟩ := made.returns fits
  cases solved.symm.trans solved'
  exact ⟨fits, reported, rfl⟩

end Case

section Tally

variable {n limit : Nat} {alpha : Float} {seed : Seed} {k : Case} {r : Result} {sig : Signal}
  {cases done : List Case} {t : Totals}

private theorem Case.Reported.add_eq (reported : k.Reported limit r) (done : List Case) :
    (tally limit done).add r =
      (addCounters (tally limit done).steps r.steps).map fun _ => tally limit (done ++ [k]) := by
  unfold Totals.add addCounters
  split
  · next bound =>
    cases reported with
    | decided within steps verdict =>
      cases outcome : r.outcome with
      | satisfiable m =>
        have model : k.formula.Satisfiable := by
          simpa [outcome, Search.Outcome.verdict?] using verdict
        simp [tally, steps, within, model, Except.map, min_max_distrib_right]
      | unsatisfiable =>
        have unmet : ¬ k.formula.Satisfiable := by
          simpa [outcome, Search.Outcome.verdict?] using verdict
        simp [tally, steps, within, unmet, Except.map, min_max_distrib_right]
      | inconclusive => simp [outcome, Search.Outcome.verdict?] at verdict
    | cut beyond steps outcome =>
      simp [tally, steps, beyond, outcome, Except.map, beyond.le]
  · rfl

private theorem steps_tally_append (limit : Nat) (done cases : List Case) :
    (tally limit (done ++ cases)).steps = (tally limit done).steps + (tally limit cases).steps := by
  simp [tally]

private theorem Case.Reported.steps_eq (reported : k.Reported limit r) :
    r.steps = (tally limit [k]).steps := by
  cases reported with
  | decided within steps => simp [tally, steps, within]
  | cut beyond steps => simp [tally, steps, beyond.le]

private theorem Case.Reported.add_eq_ok_iff (reported : k.Reported limit r) :
    (tally limit done).add r = .ok t ↔
      (tally limit (done ++ [k])).steps < wordBound ∧ t = tally limit (done ++ [k]) := by
  rw [reported.add_eq, addCounters, reported.steps_eq, ← steps_tally_append]
  split
  · next bound => simp [Except.map, bound, eq_comm]
  · next full => simp [Except.map, full]

private theorem Totals.search_eq_ok_iff :
    search n alpha limit (tally limit done) seed .never = .ok (t, sig) ↔
      ∃ k : Case, k.Made n alpha seed ∧ k.Fits limit ∧
        (tally limit (done ++ [k])).steps < wordBound ∧ t = tally limit (done ++ [k]) ∧
        sig = .never := by
  unfold search
  constructor
  · intro ran
    rw [bind_eq_ok] at ran
    obtain ⟨f, sig₁, drawn, ran⟩ := ran
    obtain ⟨drawn, rfl⟩ := lift_eq_ok.mp drawn
    obtain ⟨k, made, rfl⟩ := Case.exists_made (mapError_ok_iff.mp drawn)
    rw [bind_eq_ok] at ran
    obtain ⟨r, sig₂, solved, ran⟩ := ran
    obtain ⟨fits, reported, rfl⟩ := made.reported (mapError_eq_ok.mp solved)
    rw [bind_of_ok (check_never _)] at ran
    obtain ⟨added, rfl⟩ := lift_eq_ok.mp ran
    obtain ⟨bound, rfl⟩ := reported.add_eq_ok_iff.mp (mapError_ok_iff.mp added)
    exact ⟨k, made, fits, bound, rfl, rfl⟩
  · rintro ⟨k, made, fits, bound, rfl, rfl⟩
    obtain ⟨r, solved, reported⟩ := made.returns fits
    have added := reported.add_eq_ok_iff.mpr ⟨bound, rfl⟩
    rw [bind_of_ok (lift_eq_ok.mpr ⟨mapError_ok_iff.mpr made.drawn, rfl⟩),
      bind_of_ok (mapError_eq_ok.mpr solved), bind_of_ok (check_never _)]
    exact lift_eq_ok.mpr ⟨mapError_ok_iff.mpr added, rfl⟩

private theorem Totals.foldlM_search_eq_ok_iff {seeds : List Seed}
    (word : (tally limit done).steps < wordBound) :
    seeds.foldlM (search n alpha limit) (tally limit done) .never = .ok (t, sig) ↔
      ∃ cases, List.Forall₂ (Case.Made n alpha) seeds cases ∧ (∀ k ∈ cases, k.Fits limit) ∧
        (tally limit (done ++ cases)).steps < wordBound ∧ t = tally limit (done ++ cases) ∧
        sig = .never := by
  -- The totals are always the tally of the instances done, so that these are generalised.
  induction seeds generalizing done t with
  | nil =>
    constructor
    · intro ran
      cases ran
      exact ⟨[], .nil, by simp, by simpa using word, by simp, rfl⟩
    · rintro ⟨cases, made, -, -, rfl, rfl⟩
      cases made
      simp
  | cons seed seeds ih =>
    rw [List.foldlM_cons, bind_eq_ok]
    constructor
    · rintro ⟨next, sig₁, searched, ran⟩
      obtain ⟨k, made, fits, bound, rfl, rfl⟩ := search_eq_ok_iff.mp searched
      obtain ⟨cases, later, each, total, rfl, rfl⟩ := (ih bound).mp ran
      refine ⟨k :: cases, .cons made later, List.forall_mem_cons.mpr ⟨fits, each⟩, ?_, ?_, rfl⟩
      · simpa using total
      · simp
    · rintro ⟨cases, made, each, total, rfl, rfl⟩
      obtain ⟨k, cases, first, later, rfl⟩ := List.forall₂_cons_left_iff.mp made
      obtain ⟨fits, each⟩ := List.forall_mem_cons.mp each
      rw [List.append_cons] at total ⊢
      have bound : (tally limit (done ++ [k])).steps < wordBound := by
        rw [steps_tally_append] at total
        omega
      exact ⟨_, _, search_eq_ok_iff.mpr ⟨k, first, fits, bound, rfl, rfl⟩,
        (ih bound).mpr ⟨cases, later, each, total, rfl, rfl⟩⟩

private theorem tally_partition (limit : Nat) (cases : List Case) :
    (tally limit cases).satisfiable + (tally limit cases).unsatisfiable +
      (tally limit cases).inconclusive = cases.length := by
  induction cases with
  | nil => rfl
  | cons k cases ih =>
    rw [List.length_cons, ← ih]
    simp only [tally, List.countP_cons]
    by_cases within : k.steps ≤ limit
    · by_cases model : k.formula.Satisfiable
      · simp [within, model, within.not_gt]
        omega
      · simp [within, model, within.not_gt]
        omega
    · simp [within, not_le.mp within]
      omega

private theorem tally_mono {lower upper : Nat} (le : lower ≤ upper) (cases : List Case) :
    (tally lower cases).steps ≤ (tally upper cases).steps ∧
      (tally lower cases).maxSteps ≤ (tally upper cases).maxSteps ∧
      (tally lower cases).satisfiable ≤ (tally upper cases).satisfiable ∧
      (tally lower cases).unsatisfiable ≤ (tally upper cases).unsatisfiable ∧
      (tally upper cases).inconclusive ≤ (tally lower cases).inconclusive := by
  refine ⟨?_, ?_, ?_, ?_, ?_⟩
  · apply List.sum_le_sum
    intro k _
    exact min_le_min_left k.steps le
  · exact min_le_min_left _ le
  · apply List.countP_mono_left
    intro k _
    simp only [decide_eq_true_eq]
    exact fun ⟨within, model⟩ => ⟨within.trans le, model⟩
  · apply List.countP_mono_left
    intro k _
    simp only [decide_eq_true_eq]
    exact fun ⟨within, unmet⟩ => ⟨within.trans le, unmet⟩
  · apply List.countP_mono_left
    intro k _
    simp only [decide_eq_true_eq]
    exact le.trans_lt

theorem Case.Fits.of_le {lower : Nat} (fits : k.Fits limit) (le : lower ≤ limit)
    (member : k ∈ cases) (total : (tally limit cases).steps < wordBound) : k.Fits lower := by
  have counted : min k.steps limit ≤ (tally limit cases).steps :=
    List.le_sum_of_mem (List.mem_map_of_mem member)
  -- Under the higher limit the case has put its steps, or the limit, into the sum.
  unfold Case.Fits at fits ⊢
  omega

end Tally

section Measurement

variable {n samples limit : Nat} {alpha : Float} {seed : Seed} {t : Totals} {s : CostSample}
  {sig : Signal}

private theorem length_of_made {cases : List Case}
    (made : List.Forall₂ (Case.Made n alpha) (seedsUnder seed samples) cases) :
    cases.length = samples := by
  rw [← made.length_eq, seedsUnder, List.length_map, List.length_range]

/-- The loop of a measurement ends exactly when there are instances and their steps under the limit
can be counted. -/
private theorem Totals.extend_eq_ok_iff :
    extend n alpha limit seed samples 0 {} .never = .ok (t, sig) ↔
      ∃ cases, List.Forall₂ (Case.Made n alpha) (seedsUnder seed samples) cases ∧
        (∀ k ∈ cases, k.Fits limit) ∧ (tally limit cases).steps < wordBound ∧
        t = tally limit cases ∧ sig = .never := by
  have start : ({} : Totals) = tally limit [] := by simp [tally]
  have empty : (tally limit []).steps < wordBound := by simp [tally, wordBound]
  rw [extend_eq, ← List.range_eq_range', ← seedsUnder, start]
  simpa only [List.nil_append] using foldlM_search_eq_ok_iff empty

private theorem measure_eq_ok_iff : measure n alpha samples limit seed .never = .ok (s, sig) ↔
    0 < samples ∧ ∃ t, Totals.extend n alpha limit seed samples 0 {} .never = .ok (t, sig) ∧
      s = t.sample n alpha samples limit := by
  unfold measure
  by_cases absent : samples = 0
  · rw [if_pos absent]
    simp [absent]
  · rw [if_neg absent, bind_eq_ok]
    constructor
    · rintro ⟨t, sig', counted, ended⟩
      cases ended
      exact ⟨Nat.pos_of_ne_zero absent, t, counted, rfl⟩
    · rintro ⟨-, t, counted, rfl⟩
      exact ⟨t, sig, counted, rfl⟩

/-- A measurement under a limit, as an account of the instances. -/
structure Accounted (n : Nat) (alpha : Float) (samples limit : Nat) (seed : Seed)
    (cases : List Case) (s : CostSample) : Prop where
  measured : measure n alpha samples limit seed .never = .ok (s, .never)
  totals : Totals.extend n alpha limit seed samples 0 {} .never = .ok (tally limit cases, .never)
  sample : s = (tally limit cases).sample n alpha samples limit
  partition : s.satisfiable + s.unsatisfiable + s.inconclusive = samples

private theorem accounted_of_made {cases : List Case} (positive : 0 < samples)
    (made : List.Forall₂ (Case.Made n alpha) (seedsUnder seed samples) cases)
    (each : ∀ k ∈ cases, k.Fits limit) (total : (tally limit cases).steps < wordBound) :
    Accounted n alpha samples limit seed cases
      ((tally limit cases).sample n alpha samples limit) := by
  have counted := Totals.extend_eq_ok_iff.mpr ⟨cases, made, each, total, rfl, rfl⟩
  exact ⟨measure_eq_ok_iff.mpr ⟨positive, _, counted, rfl⟩, counted, rfl,
    (tally_partition limit cases).trans (length_of_made made)⟩

private theorem exists_made_of_seeds (enough : 3 ≤ n) (small : n ≤ maxVar)
    (finite : alpha.isFinite = true) (nonnegative : ¬ alpha < 0.0) (seeds : List Seed) :
    ∃ cases, List.Forall₂ (Case.Made n alpha) seeds cases := by
  induction seeds with
  | nil => exact ⟨[], .nil⟩
  | cons seed seeds ih =>
    obtain ⟨cases, later⟩ := ih
    obtain ⟨f, drawn⟩ : ∃ f, Uniform.ofSeed n alpha seed = .ok f :=
      Uniform.ofSeed_returns enough small finite nonnegative
    obtain ⟨k, made, -⟩ := Case.exists_made drawn
    exact ⟨k :: cases, .cons made later⟩

private theorem steps_le_of_made {seeds : List Seed} {cases : List Case}
    (made : List.Forall₂ (Case.Made n alpha) seeds cases) :
    ∀ k ∈ cases, k.steps ≤ 2 ^ (n + 1) - 1 := by
  induction made with
  | nil => simp
  | cons first _ ih => exact List.forall_mem_cons.mpr ⟨first.steps_le, ih⟩

private theorem measure_returns (enough : 3 ≤ n) (small : n ≤ maxVar)
    (finite : alpha.isFinite = true) (nonnegative : ¬ alpha < 0.0) (positive : 0 < samples)
    (word : samples * (2 ^ (n + 1) - 1) < wordBound) (limit : Nat) (seed : Seed) :
    ∃ s, measure n alpha samples limit seed .never = .ok (s, .never) := by
  obtain ⟨cases, made⟩ :=
    exists_made_of_seeds enough small finite nonnegative (seedsUnder seed samples)
  have tree := steps_le_of_made made
  have each : ∀ k ∈ cases, k.Fits limit := by
    intro k member
    have bound := tree k member
    have most : 2 ^ (n + 1) - 1 ≤ samples * (2 ^ (n + 1) - 1) := Nat.le_mul_of_pos_left _ positive
    unfold Case.Fits
    omega
  have total : (tally limit cases).steps ≤ samples * (2 ^ (n + 1) - 1) := by
    have most := List.sum_le_card_nsmul (cases.map fun k => min k.steps limit) (2 ^ (n + 1) - 1)
    rw [List.length_map, length_of_made made, nsmul_eq_mul] at most
    apply most
    intro x listed
    obtain ⟨k, member, rfl⟩ := List.mem_map.mp listed
    exact (min_le_left _ _).trans (tree k member)
  exact ⟨_, (accounted_of_made positive made each (total.trans_lt word)).measured⟩

/-- A measurement that no signal stops accounts for every instance. Its loop counts, for each
instance, the steps of the search that no limit stops, but no more than the limit; the average is
the quotient of their sum and the number of instances. The largest count is that of the instances,
but no more than the limit. Inconclusive are the instances that take more steps than the limit, and
the others are counted as satisfiable or not as they have a model or not, so that each instance is
counted once. The same instances are searched under every lower limit, which returns as well: then
none of the sums is higher, and no fewer instances are inconclusive. A measurement returns when
there are instances and their steps under the limit can be counted. -/
theorem measure_accounts (n : Nat) (alpha : Float) (samples limit : Nat) (seed : Seed) :
    (∀ s sig, measure n alpha samples limit seed .never = .ok (s, sig) →
      sig = .never ∧ 0 < samples ∧ ∃ cases,
        List.Forall₂ (Case.Made n alpha) (seedsUnder seed samples) cases ∧
        Accounted n alpha samples limit seed cases s ∧
        ∀ lower ≤ limit, ∃ s', Accounted n alpha samples lower seed cases s' ∧
          (tally lower cases).steps ≤ (tally limit cases).steps ∧ s'.maxSteps ≤ s.maxSteps ∧
          s'.satisfiable ≤ s.satisfiable ∧ s'.unsatisfiable ≤ s.unsatisfiable ∧
          s.inconclusive ≤ s'.inconclusive) ∧
    ∀ cases, 0 < samples → List.Forall₂ (Case.Made n alpha) (seedsUnder seed samples) cases →
      (∀ k ∈ cases, k.Fits limit) → (tally limit cases).steps < wordBound →
        ∃ s, measure n alpha samples limit seed .never = .ok (s, .never) := by
  constructor
  · intro s sig measured
    obtain ⟨positive, t, counted, rfl⟩ := measure_eq_ok_iff.mp measured
    obtain ⟨cases, made, each, total, rfl, rfl⟩ := Totals.extend_eq_ok_iff.mp counted
    refine ⟨rfl, positive, cases, made, accounted_of_made positive made each total, ?_⟩
    intro lower le
    obtain ⟨steps, rest⟩ := tally_mono le cases
    have each' : ∀ k ∈ cases, k.Fits lower := fun k member => (each k member).of_le le member total
    exact ⟨_, accounted_of_made positive made each' (steps.trans_lt total), steps, rest⟩
  · intro cases positive made each total
    exact ⟨_, (accounted_of_made positive made each total).measured⟩

end Measurement

/-- A limit of fifteen steps decides every instance over three variables. -/
theorem measure_three_accounted : ∃ s, measure 3 4.26 2 15 1337 .never = .ok (s, .never) ∧
    s.inconclusive = 0 ∧ ∃ cases,
      List.Forall₂ (Case.Made 3 4.26) (seedsUnder 1337 2) cases ∧
      Accounted 3 4.26 2 15 1337 cases s := by
  have finite : Float.isFinite 4.26 = true := by decide
  have nonnegative : ¬ (4.26 : Float) < 0.0 := by decide
  obtain ⟨s, measured⟩ : ∃ s, measure 3 4.26 2 15 1337 .never = .ok (s, .never) :=
    measure_returns (by decide) (by decide) finite nonnegative (by decide) (by decide) 15 1337
  obtain ⟨account, -⟩ := measure_accounts 3 4.26 2 15 1337
  obtain ⟨-, -, cases, made, accounted, -⟩ := account s .never measured
  refine ⟨s, measured, ?_, cases, made, accounted⟩
  rw [accounted.sample]
  apply List.countP_eq_zero.mpr
  intro k member
  have within : k.steps ≤ 15 := steps_le_of_made made k member
  simpa using within

end SatLab.Cost
