import SatLab.Landscape.EnergyTail
import SatLab.Proofs.Annealing.Trace
import SatLab.Proofs.Trial.Instance
/-!
The history of an energy tail. A drawn formula has no empty clause, so an anneal of it ends early
only on a satisfying assignment, and the zeros that carry its trace on to the budget are what this
assignment falsifies.
-/

set_option autoImplicit false
set_option relaxedAutoImplicit false

namespace SatLab.Landscape

open Trial (Instance)

namespace TailConfig

def toInstance (c : TailConfig) : Instance := ⟨c.n, c.alpha, c.seed⟩

def schedule (c : TailConfig) : Annealing.Schedule :=
  { maxSteps := c.budget, acceptance := .lenient c.escapeProbability }

/-- The assignment of its anneal of a formula after a number of steps. -/
def assignmentAfter? (c : TailConfig) (f : Formula) (steps : Nat) : Option Assignment :=
  Annealing.assignmentAfter? f c.schedule (c.toInstance.searchSource 0) steps

end TailConfig

section Padding

variable {length : Nat} {history padded : List Nat}

private theorem padHistory_eq_ok_iff : padHistory length history = .ok padded ↔
    ¬ (history.length < length ∧ tableBound ≤ length) ∧
      padded = history.take length ++ List.replicate (length - history.length) 0 := by
  rw [padHistory]
  split <;> simp_all [eq_comm]

private theorem entries_of_padHistory (done : padHistory length history = .ok padded)
    (within : history.length ≤ length) : padded.length = length ∧ history <+: padded ∧
      ∀ i < length, history.length ≤ i → padded[i]? = some 0 := by
  obtain ⟨-, rfl⟩ := padHistory_eq_ok_iff.mp done
  rw [List.take_of_length_le within]
  refine ⟨?_, List.prefix_append .., fun i inside behind => ?_⟩
  · rw [List.length_append, List.length_replicate]
    omega
  · rw [List.getElem?_append_right behind, List.getElem?_replicate, if_pos (by omega)]

private theorem energies_of_padHistory {σ : Type} [Random.WordSource σ] {f : Formula}
    {schedule : Annealing.Schedule} {s : σ} {run : Annealing.Run} (traced : run.Traced f schedule s)
    (nonempty : f.hasEmptyClause = false)
    (done : padHistory schedule.maxSteps run.energyTrace = .ok padded) :
    ∀ i < schedule.maxSteps, ∃ a energy,
      Annealing.assignmentAfter? f schedule s (min (i + 1) run.steps) = some a ∧
        f.countUnsat a = .ok energy ∧ padded[i]? = some energy := by
  intro i inside
  have steps := traced.steps
  obtain ⟨-, kept, zeros⟩ := entries_of_padHistory done (steps ▸ traced.within)
  by_cases taken : i < run.steps
  · obtain ⟨a, given⟩ := traced.passed (i + 1) taken
    obtain ⟨energy, entry, counted⟩ := traced.entries i taken a given
    refine ⟨a, energy, ?_, counted, ?_⟩
    · rw [Nat.min_eq_left taken]
      exact given
    · obtain ⟨rest, whole⟩ := kept
      rw [← whole, List.getElem?_append_left (steps ▸ taken), entry]
  · have behind : run.steps ≤ i := Nat.not_lt.mp taken
    refine ⟨run.assignment, 0, ?_, traced.satisfied (behind.trans_lt inside) nonempty, ?_⟩
    · rw [Nat.min_eq_right (Nat.le_succ_of_le behind)]
      exact traced.last
    · exact zeros i inside (steps ▸ behind)

end Padding

section Parts

variable {c : TailConfig} {r : TailResult} {sig sig' : Signal}

theorem parts_of_energyTail (ran : energyTail c sig = .ok (r, sig')) :
    0 < c.budget ∧ ∃ f run, c.toInstance.formula = .ok f ∧
      c.toInstance.anneal f c.schedule 0 sig = .ok (run, sig') ∧
      padHistory c.budget run.energyTrace = .ok r.energyHistory ∧
      r.minEnergy = r.energyHistory.min?.getD 0 := by
  unfold energyTail at ran
  split at ran
  · cases ran
  · next permitted =>
    dsimp only at ran
    obtain ⟨f, sig₁, lifted, ran₁⟩ := Task.bind_eq_ok.mp ran
    obtain ⟨made, same⟩ := Task.lift_eq_ok.mp lifted
    obtain ⟨run, sig₂, annealed, ran₂⟩ := Task.bind_eq_ok.mp ran₁
    obtain ⟨history, sig₃, lifted', ran₃⟩ := Task.bind_eq_ok.mp ran₂
    obtain ⟨padded, same'⟩ := Trial.sound_eq_ok.mp lifted'
    cases ran₃
    cases same
    cases same'
    have positive : c.budget ≠ 0 := by
      intro none
      simp [none] at permitted
    exact ⟨Nat.pos_of_ne_zero positive, f, run, made, annealed, padded, rfl⟩

private theorem energyTail_returns (enough : 3 ≤ c.n) (small : c.n ≤ maxVar)
    (finite : c.alpha.isFinite = true) (nonnegative : ¬ c.alpha < 0.0)
    (valid : c.schedule.validate = .ok ()) (budget : 0 < c.budget ∧ c.budget < tableBound)
    (window : 0 < c.tailWindow) : ∃ r, energyTail c .never = .ok (r, .never) := by
  obtain ⟨f, made⟩ := c.toInstance.formula_returns enough small finite nonnegative
  have drawn := Instance.drawn_of_formula made
  obtain ⟨run, annealed⟩ := c.toInstance.anneal_returns drawn.wellFormed valid 0
  obtain ⟨history, padded⟩ : ∃ history, padHistory c.budget run.energyTrace = .ok history :=
    ⟨_, padHistory_eq_ok_iff.mpr ⟨fun large => absurd budget.2 (Nat.not_lt.mpr large.2), rfl⟩⟩
  have permitted : ¬ (decide (c.budget = 0) || decide (c.tailWindow = 0)) = true := by
    simp only [Bool.or_eq_true, decide_eq_true_eq, not_or]
    omega
  unfold energyTail
  rw [if_neg permitted]
  simp only [Task.bind_eq_ok, Task.lift_eq_ok, Trial.sound_eq_ok]
  exact ⟨_, f, _, ⟨made, rfl⟩, run, _, annealed, history, _, ⟨padded, rfl⟩, rfl⟩

end Parts

/-- The history of an energy tail tells what happened in its anneal `run` of the formula `f`. -/
structure TailResult.Faithful (c : TailConfig) (f : Formula) (run : Annealing.Run)
    (r : TailResult) : Prop where
  length : r.energyHistory.length = c.budget
  recorded : run.energyTrace.length = run.steps ∧ run.energyTrace <+: r.energyHistory
  entries : ∀ i < c.budget, ∃ a energy, c.assignmentAfter? f (min (i + 1) run.steps) = some a ∧
    f.countUnsat a = .ok energy ∧ r.energyHistory[i]? = some energy
  start : c.assignmentAfter? f 0 = some ((Uniform.drawAssignment f.numVars :
    Random.Draw Random.KeyStream Assignment) (c.toInstance.searchSource 0)).1
  ended : c.assignmentAfter? f run.steps = some run.assignment
  padded : run.steps < c.budget → f.IsModel run.assignment
  least : r.energyHistory.min? = some r.minEnergy
  solved : r.minEnergy = 0 ↔
    ∃ steps ≤ run.steps, ∃ a, c.assignmentAfter? f steps = some a ∧ f.IsModel a

/-- An energy tail that ends with a result has a faithful history. It has an entry for each step of
the budget: how many clauses the assignment after that step makes false, or the last assignment
where the anneal took fewer steps. Zeros are only added to the trace when that one is a model, and
the least entry is zero exactly when the anneal came to a model. -/
theorem energyTail_faithful {c : TailConfig} {r : TailResult} {sig sig' : Signal}
    (ran : energyTail c sig = .ok (r, sig')) :
    ∃ f run, c.toInstance.formula = .ok f ∧
      c.toInstance.anneal f c.schedule 0 sig = .ok (run, sig') ∧ r.Faithful c f run := by
  obtain ⟨positive, f, run, made, annealed, padded, least⟩ := parts_of_energyTail ran
  obtain ⟨s, walked⟩ := Instance.anneal_eq_ok.mp annealed
  have traced : run.Traced f c.schedule (c.toInstance.searchSource 0) :=
    Annealing.traced_of_anneal walked
  have drawn := Instance.drawn_of_formula made
  have model_iff {a : Assignment} {steps : Nat} (given : c.assignmentAfter? f steps = some a) :
      f.IsModel a ↔ f.countUnsat a = .ok 0 :=
    Formula.isModel_iff_countUnsat drawn.wellFormed (traced.size steps a given)
  obtain ⟨length, kept, -⟩ := entries_of_padHistory padded (traced.steps ▸ traced.within)
  have within : run.steps ≤ c.budget := traced.within
  have satisfied (early : run.steps < c.budget) : f.countUnsat run.assignment = .ok 0 :=
    traced.satisfied early drawn.hasEmptyClause
  have entries : ∀ i < c.budget, ∃ a energy, c.assignmentAfter? f (min (i + 1) run.steps) = some a ∧
      f.countUnsat a = .ok energy ∧ r.energyHistory[i]? = some energy :=
    energies_of_padHistory traced drawn.hasEmptyClause padded
  have lowest : r.energyHistory.min? = some r.minEnergy := by
    cases found : r.energyHistory.min? with
    | none =>
      rw [List.min?_eq_none_iff] at found
      rw [found] at length
      exact absurd length positive.ne
    | some e => rw [least, found, Option.getD_some]
  obtain ⟨member, lower⟩ := List.min?_eq_some_iff.mp lowest
  refine ⟨f, run, made, annealed, length, ⟨traced.steps.symm, kept⟩, entries, traced.start,
    traced.last, fun early => (model_iff traced.last).mpr (satisfied early), lowest, ?_, ?_⟩
  · intro zero
    obtain ⟨i, entry⟩ := List.getElem?_of_mem member
    obtain ⟨inside, -⟩ := List.getElem?_eq_some_iff.mp entry
    obtain ⟨a, energy, given, counted, same⟩ := entries i (length ▸ inside)
    obtain rfl : r.minEnergy = energy := Option.some.inj (entry.symm.trans same)
    refine ⟨min (i + 1) run.steps, Nat.min_le_right .., a, given, ?_⟩
    rw [model_iff given, counted, zero]
  · rintro ⟨j, le, a, given, model⟩
    have count : f.countUnsat a = .ok 0 := (model_iff given).mp model
    obtain rfl : j = run.steps := traced.solved j le a given count
    -- The run ended on the model, so the last entry is the energy of the model.
    obtain ⟨b, energy, given', counted, entry⟩ := entries (c.budget - 1) (by omega)
    rw [Nat.sub_add_cancel positive, Nat.min_eq_right within, given] at given'
    obtain rfl : a = b := Option.some.inj given'
    obtain rfl : 0 = energy := Except.ok.inj (count.symm.trans counted)
    exact Nat.le_zero.mp (lower 0 (List.mem_of_getElem? entry))

/-- The usual energy tail has a faithful history. -/
theorem usual_energyTail_faithful : ∃ r sig, energyTail {} .never = .ok (r, sig) ∧
    ∃ f run, r.Faithful {} f run := by
  obtain ⟨r, ran⟩ := energyTail_returns (c := {}) (by decide) (by decide) (by rfl) (by decide)
    (by rfl) (by decide) (by decide)
  obtain ⟨f, run, -, -, faithful⟩ := energyTail_faithful ran
  exact ⟨r, _, ran, f, run, faithful⟩

end SatLab.Landscape
