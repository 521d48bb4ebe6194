import SatLab.Proofs.Search.Stopped
import SatLab.Proofs.Search.SecondModel
/-!
Searches and surveys stay within their tables and counters, whatever a stop signal does. The only
fault is a step count that leaves the word, which takes a step limit of about the size of the word.
-/

set_option autoImplicit false
set_option relaxedAutoImplicit false

namespace SatLab.Search

section Counters

variable {n budget : Nat} {s : State} {r : Result} {sig sig' : Signal}

private theorem State.run_counts (ran : s.run n budget sig = .ok (r, sig'))
    (fewer : s.backtracks ≤ s.steps) : r.backtracks ≤ r.steps ∧ r.steps ≤ s.steps + budget := by
  induction budget using Nat.strong_induction_on generalizing s sig with
  | h budget ih =>
    rcases run_cases ran with
      ⟨-, rfl⟩ | rfl | ⟨fr, rest, left, stack, rfl, last | ⟨s', next, later⟩⟩
    · exact ⟨fewer, Nat.le_add_right _ _⟩
    · exact ⟨fewer, Nat.le_add_right _ _⟩
    · obtain ⟨a, rfl⟩ := result_of_step last
      dsimp only
      omega
    · have counted := counts_of_step next
      have bound := ih left (Nat.lt_succ_self left) later (by omega)
      omega

end Counters

section Solve

variable {f : Formula} (wellFormed : f.WellFormed) {limit : Nat}

/-- A search over a well-formed formula that comes to an end within the counters. -/
inductive Contained (limit : Nat) (f : Formula) (sig : Signal) : Prop
  | returned {r : Result} {sig' : Signal} (ran : solve limit f sig = .ok (r, sig'))
      (steps : r.steps ≤ limit) (backtracks : r.backtracks ≤ r.steps)
      (model : ∀ m, r.outcome = .satisfiable m → m.size = f.numVars)
  | overflow (failed : solve limit f sig = .error .overflow) (full : wordBound ≤ limit + 1)

include wellFormed

private theorem isModel_of_stopped {r : Result} {sig sig' : Signal} {m : Assignment}
    (ran : solve limit f sig = .ok (r, sig')) (found : r.outcome = .satisfiable m) :
    f.IsModel m := by
  rcases State.run_cutShort f.numVars limit (.start f) sig with
    ⟨-, r', sig'', ran', undecided, -⟩ | ⟨-, same⟩ | ⟨quiet, same, -⟩
  · cases ran.symm.trans ran'
    cases undecided.symm.trans found
  · cases ran.symm.trans same
  · cases ran.symm.trans same
    exact isModel_of_solve wellFormed quiet found

theorem solve_contained (limit : Nat) (sig : Signal) : Contained limit f sig := by
  cases ran : solve limit f sig with
  | ok p =>
    obtain ⟨r, sig'⟩ := p
    have counts := State.run_counts ran le_rfl
    simp only [State.start, Nat.zero_add] at counts
    exact .returned ran counts.2 counts.1 fun m found => (isModel_of_stopped wellFormed ran found).1
  | error e =>
    -- a signal never ends a search in an error of its own
    rcases solve_yielding limit f sig with ⟨-, r, sig', ran', -⟩ | ⟨quiet, same⟩ | ⟨-, same, -⟩
    · cases ran.symm.trans ran'
    · cases ran.symm.trans same
      obtain ⟨rfl, full⟩ := overflow_of_solve wellFormed quiet
      have within : stepBound limit f ≤ limit := min_le_left _ _
      exact .overflow ran (by omega)
    · cases ran.symm.trans same

end Solve

section Backbone

variable {f : Formula} (wellFormed : f.WellFormed) {limit : Nat}

/-- Everything that the turn of a variable looks up is there: the status of the variable, its value
in the first model, and the values of all variables in a model with the opposite value, which is a
model of a formula that the further clause makes. -/
structure Survey.Ready (limit : Nat) (f : Formula) (m : Assignment) (v : Nat) (s : Survey) :
    Prop where
  statuses : s.statuses.size = f.numVars
  inside : 0 < v ∧ v - 1 < s.statuses.size
  model : m.size = f.numVars
  strengthened : ∃ opposite g, (do (← m.literalOf v).opposite) = .ok opposite ∧
    f.withClause ⟨[opposite]⟩ = .ok g ∧
      ∀ r sig sig' other, solve limit g sig = .ok (r, sig') → r.outcome = .satisfiable other →
        other.size = f.numVars

include wellFormed

theorem Survey.ready_of_foldlM (small : f.numVars ≤ maxVar) {first : Result} {m : Assignment}
    {degrees : Array Nat} {v : Nat} {s : Survey} {sig₀ sig₁ sig₂ sig₃ : Signal}
    (solved : solve limit f sig₀ = .ok (first, sig₁))
    (outcome : first.outcome = .satisfiable m) (counted : f.degrees = .ok degrees)
    (range : 0 < v ∧ v ≤ f.numVars)
    (surveyed : (List.range' 1 (v - 1)).foldlM (classify limit f m) (start degrees first.steps)
      sig₂ = .ok (s, sig₃)) : s.Ready limit f m v := by
  obtain ⟨positive, inside⟩ := range
  have model := isModel_of_stopped wellFormed solved outcome
  -- the turns that were taken under the signal are those that are taken without one
  have quiet := (Task.steady_foldlM (Survey.classify_steady limit f m) _).quiet_of_ok surveyed
  obtain ⟨sound, -⟩ := before_turn wellFormed model counted quiet inside
  obtain ⟨b, value⟩ := m.exists_value positive (model.1 ▸ inside)
  refine ⟨sound.size, ⟨positive, ?_⟩, model.1, .signed v !b, f.force v !b, ?_, ?_, ?_⟩
  · rw [sound.size]
    omega
  · exact Assignment.opposite_of_value positive (inside.trans small) value
  · exact Formula.withClause_eq_force wellFormed inside
  · intro r sig sig' other ran found
    exact (isModel_of_stopped (wellFormed.force positive inside (inside.trans small)) ran found).1

/-- A classification is reported or stopped by the signal. The only fault that it can end in is a
step count that leaves the word, and then the limit has about the size of the word. -/
theorem backbone_contained (limit : Nat) (sig : Signal) :
    (∃ r sig', backbone limit f sig = .ok (r, sig')) ∨ backbone limit f sig = .error .cancelled ∨
      backbone limit f sig = .error (.fault .overflow) ∧
        wordBound ≤ (limit + 1) * (f.numVars + 1) := by
  rcases backbone_steady limit f sig with cut | ⟨quiet, same⟩ | ⟨-, same, -⟩
  · exact .inr (.inl cut)
  · rcases backbone_reports wellFormed limit with ⟨failed, full⟩ | ⟨r, returned, -⟩
    · cases quiet.symm.trans failed
      refine .inr (.inr ⟨same, full.trans ?_⟩)
      have fewer := Nat.mul_le_mul_left (f.numVars + 1)
        (min_le_left limit (2 ^ (f.vars.card + 1) - 1))
      calc (f.numVars + 1) * stepBound limit f + 1
          ≤ (f.numVars + 1) * limit + 1 := Nat.add_le_add_right fewer 1
        _ ≤ (f.numVars + 1) * limit + (f.numVars + 1) := by omega
        _ = (f.numVars + 1) * (limit + 1) := (Nat.mul_succ _ _).symm
        _ = (limit + 1) * (f.numVars + 1) := Nat.mul_comm _ _
    · cases quiet.symm.trans returned
  · exact .inl ⟨_, _, same⟩

end Backbone

end SatLab.Search
