import SatLab.Proofs.Cnf.Renaming
import SatLab.Proofs.Search.Verdict
/-!
The search in a renamed formula. The choice of a literal looks at occurrences and their order only,
so the search in the renamed formula passes through the renamed states and takes the same steps.
-/

set_option autoImplicit false
set_option relaxedAutoImplicit false

namespace SatLab.Search

private theorem argmax_map {α β : Type} (φ : α → β) {score : α → Nat} {score' : β → Nat}
    {xs : List α} (agree : ∀ x ∈ xs, score' (φ x) = score x) :
    (xs.map φ).argmax score' = (xs.argmax score).map φ := by
  induction xs using List.reverseRecOn with
  | nil => rfl
  | append_singleton xs x ih =>
    have last := agree x (by simp)
    have rest := ih fun y member => agree y (List.mem_append_left _ member)
    rw [List.map_append, List.map_singleton, List.argmax_concat, List.argmax_concat, rest]
    cases best : xs.argmax score with
    | none => rfl
    | some y =>
      have first := agree y (List.mem_append_left _ (List.argmax_mem best))
      simp only [Option.map_some, last, first]
      split <;> rfl

section Demand

variable {n n' : Nat} {g : Formula} {ρ : Renaming n n'}

def Demand.rename (ρ : Renaming n n') : Demand → Demand
  | .solved => .solved
  | .falsified => .falsified
  | .unit l => .unit (ρ.literal l)
  | .split l => .split (ρ.literal l)

private theorem unit?_rename (c : Clause) : (c.rename ρ).unit? = c.unit?.map ρ.literal := by
  rcases c with ⟨_ | ⟨k, _ | ⟨_, _⟩⟩⟩ <;> rfl

private theorem demand_rename (inside : ∀ k ∈ g.literals, k.var ∈ Set.Icc 1 n) :
    demand (g.rename ρ) = (demand g).rename ρ := by
  have bare : (g.rename ρ).clauses.isEmpty = g.clauses.isEmpty := List.isEmpty_map
  have kept : ∀ c : Clause, (c.rename ρ).isEmpty = c.isEmpty := fun c => List.isEmpty_map
  have empty : (g.rename ρ).hasEmptyClause = g.hasEmptyClause := by
    simp only [Formula.hasEmptyClause, Formula.rename, List.any_map, Function.comp_def, kept]
  have unit : (g.rename ρ).clauses.findSome? Clause.unit? =
      (g.clauses.findSome? Clause.unit?).map ρ.literal := by
    simp only [Formula.rename, List.findSome?_map, List.map_findSome?, Function.comp_def,
      unit?_rename]
  have most : (g.rename ρ).literals.argmax (g.rename ρ).literals.count =
      (g.literals.argmax g.literals.count).map ρ.literal := by
    have agree : ∀ l ∈ g.literals,
        (g.rename ρ).literals.count (ρ.literal l) = g.literals.count l := fun l occurs =>
      Formula.count_literals_rename inside (inside l occurs)
    exact (congrArg (List.argmax _) Formula.literals_rename).trans (argmax_map ρ.literal agree)
  unfold demand
  rw [bare, empty, unit, most]
  split
  · rfl
  · split
    · rfl
    · cases g.clauses.findSome? Clause.unit? with
      | some l => rfl
      | none => cases g.literals.argmax g.literals.count <;> rfl

end Demand

section Model

variable {n n' : Nat} {trail : List Literal}

private theorem value_modelAsserting {v : Nat} (positive : 0 < v) (bound : v ≤ n) :
    (modelAsserting n trail).value v = .ok (decide (Literal.signed v true ∈ trail)) := by
  have inside : v - 1 < n := by omega
  have place : ((v - 1 : Nat) : Int) + 1 = v := by omega
  refine Assignment.value_eq_ok_iff.mpr ⟨positive, ?_⟩
  simp [modelAsserting, inside, place, Literal.signed]

private theorem carries_modelAsserting {ρ : Renaming n n'}
    (inside : ∀ l ∈ trail, l.var ∈ Set.Icc 1 n) :
    ρ.Carries (modelAsserting n trail) (modelAsserting n' (trail.map ρ.literal)) where
  size := size_modelAsserting n' _
  kept v positive bound plain := by
    have here : v ∈ Set.Icc 1 n := ⟨positive, bound⟩
    have image : ρ.literal (.signed v true) = .signed (ρ.var v) true := by
      simp [Renaming.literal, Literal.isPositive_signed positive, plain]
    have same : Literal.signed (ρ.var v) true ∈ trail.map ρ.literal ↔ .signed v true ∈ trail := by
      rw [← image]
      constructor
      · intro member
        obtain ⟨k, asserted, equal⟩ := List.mem_map.mp member
        have covered : (Literal.signed v true).var ∈ Set.Icc 1 n := Literal.var_signed.symm ▸ here
        exact Renaming.literal_injective (inside k asserted) covered equal ▸ asserted
      · exact List.mem_map_of_mem
    have target := ρ.mapsTo here
    rw [value_modelAsserting target.1 target.2, value_modelAsserting positive bound]
    simp only [same]
  added w positive bound new := by
    have absent : Literal.signed w true ∉ trail.map ρ.literal := by
      intro member
      obtain ⟨k, asserted, equal⟩ := List.mem_map.mp member
      obtain ⟨least, most⟩ := inside k asserted
      apply new k.var least most
      simpa using congrArg Literal.var equal
    rw [value_modelAsserting positive bound, decide_eq_false absent]

end Model

/-- A result in the renamed formula that tells the same as one in the formula: the same kind of
outcome, the same counters, and the renamed model. -/
structure Result.Renamed {n n' : Nat} (ρ : Renaming n n') (r r' : Result) : Prop where
  verdict : r'.outcome.verdict? = r.outcome.verdict?
  steps : r'.steps = r.steps
  backtracks : r'.backtracks = r.backtracks
  model : ∀ m, r.outcome = .satisfiable m →
    ∃ m', r'.outcome = .satisfiable m' ∧ ρ.Carries m m'

def Frame.rename {n n' : Nat} (fr : Frame) (ρ : Renaming n n') : Frame :=
  ⟨fr.parent.rename ρ, fr.decision.map ρ.literal, fr.trail.map ρ.literal⟩

def State.rename {n n' : Nat} (s : State) (ρ : Renaming n n') : State :=
  ⟨s.stack.map (·.rename ρ), s.steps, s.backtracks⟩

section Run

variable {n' : Nat} {f : Formula} {ρ : Renaming f.numVars n'} {fr : Frame}

private theorem Frame.Sound.trail_inside (wellFormed : f.WellFormed) (sound : fr.Sound f) :
    ∀ l ∈ fr.trail, l.Valid ∧ l.var ∈ Set.Icc 1 f.numVars := by
  intro l asserted
  have valid := (sound.proper.occurs l asserted).1
  exact ⟨valid, valid.var_pos, sound.proper.covered wellFormed asserted⟩

private theorem State.advance_rename (wellFormed : f.WellFormed) (sound : fr.Sound f) (s : State)
    (rest : List Frame) : (s.rename ρ).advance (f.rename ρ) (fr.rename ρ) (rest.map (·.rename ρ)) =
      match s.advance f fr rest with
      | .inl s' => .inl (s'.rename ρ)
      | .inr r => .inr ⟨.satisfiable (modelAsserting n' (fr.trail.map ρ.literal)), r.steps,
          r.backtracks⟩ := by
  have left : (f.rename ρ).restrictAll (fr.rename ρ).trail = (f.restrictAll fr.trail).rename ρ :=
    Formula.restrictAll_rename wellFormed (sound.trail_inside wellFormed)
  have inside : ∀ k ∈ (f.restrictAll fr.trail).literals, k.var ∈ Set.Icc 1 f.numVars := by
    intro k occurs
    simpa using (wellFormed.restrictAll fr.trail).var_mem_Icc occurs
  unfold advance
  rw [left, demand_rename inside]
  cases demanded : demand (f.restrictAll fr.trail) with
  | solved | falsified | unit l => rfl
  | split l =>
    obtain ⟨valid, -⟩ := asserted_left wellFormed demanded (.inr rfl)
    simp only [Demand.rename, ← Renaming.literal_neg valid]
    rfl

/-- How runs in a formula and in a renamed formula compare. -/
inductive SameRun (ρ : Renaming f.numVars n') :
    Except Fault (Result × Signal) → Except Fault (Result × Signal) → Prop
  | failed (e : Fault) : SameRun ρ (.error e) (.error e)
  | ended {r r' : Result} (same : r.Renamed ρ r') : SameRun ρ (.ok (r, .never)) (.ok (r', .never))

private theorem SameRun.of_result {s : State} {outcome : Outcome}
    (modelless : ∀ m, outcome ≠ .satisfiable m) :
    SameRun ρ (.ok (s.result outcome, .never)) (.ok ((s.rename ρ).result outcome, .never)) :=
  .ended ⟨rfl, rfl, rfl, fun m found => absurd found (modelless m)⟩

private theorem State.run_rename (wellFormed : f.WellFormed) (wellFormed' : (f.rename ρ).WellFormed)
    {s : State} (sound : ∀ fr ∈ s.stack, fr.Sound f)
    (sound' : ∀ fr ∈ (s.rename ρ).stack, fr.Sound (f.rename ρ)) (budget : Nat) :
    SameRun ρ (s.run f.numVars budget .never)
      ((s.rename ρ).run (f.rename ρ).numVars budget .never) := by
  have renamedStack : (s.rename ρ).stack = s.stack.map (·.rename ρ) := rfl
  induction budget generalizing s with
  | zero =>
    cases stack : s.stack with
    | nil =>
      rw [stack] at renamedStack
      rw [run_of_nil stack, run_of_nil renamedStack]
      exact .of_result fun m => Outcome.noConfusion
    | cons fr rest =>
      rw [stack] at renamedStack
      rw [run_zero stack, run_zero renamedStack]
      change SameRun ρ _ (if wordBound ≤ s.steps + 1 then _ else _)
      split_ifs
      · exact .failed .overflow
      · exact .of_result fun m => Outcome.noConfusion
  | succ budget ih =>
    cases stack : s.stack with
    | nil =>
      rw [stack] at renamedStack
      rw [run_of_nil stack, run_of_nil renamedStack]
      exact .of_result fun m => Outcome.noConfusion
    | cons fr rest =>
      rw [stack] at renamedStack sound
      rw [renamedStack] at sound'
      have here := sound fr List.mem_cons_self
      have stepped := step_of_sound wellFormed here s rest
      have stepped' := step_of_sound wellFormed' (sound' _ List.mem_cons_self) (s.rename ρ)
        (rest.map (·.rename ρ))
      rw [advance_rename wellFormed here] at stepped'
      cases advanced : s.advance f fr rest with
      | inl next =>
        have advanced' := advance_rename (ρ := ρ) wellFormed here s rest
        rw [advanced] at stepped stepped' advanced'
        rw [run_of_inl stack stepped, run_of_inl renamedStack stepped']
        exact ih (sound_of_advance wellFormed sound advanced)
          (sound_of_advance wellFormed' sound' advanced') rfl
      | inr r =>
        obtain ⟨-, rfl⟩ := solved_of_advance advanced
        rw [advanced] at stepped stepped'
        rw [run_of_inr stack stepped, run_of_inr renamedStack stepped']
        refine .ended ⟨rfl, rfl, rfl, fun m found => ?_⟩
        cases found
        have inside := fun l asserted => (here.trail_inside wellFormed l asserted).2
        exact ⟨_, rfl, carries_modelAsserting inside⟩

end Run

/-- A search does not depend on the names or the polarities of the variables. Under every limit, the
search in a renamed formula fails exactly as the search in the formula does, or returns the same
kind of outcome with the same steps and backtracks; a model that it finds gives every renamed
variable whose polarity is kept the value that the variable has in the model of the formula, and
makes all added variables false. The search returns unless its steps can fill the word. -/
theorem solve_rename {f : Formula} (wellFormed : f.WellFormed) {n' : Nat}
    (ρ : Renaming f.numVars n') (small : ∀ v ∈ f.vars, ρ.var v ≤ maxVar) (limit : Nat) :
    (stepBound limit f + 1 < wordBound → ∃ r, solve limit f .never = .ok (r, .never)) ∧
      (∀ e, solve limit f .never = .error e → solve limit (f.rename ρ) .never = .error e) ∧
      ∀ r sig, solve limit f .never = .ok (r, sig) →
        ∃ r', solve limit (f.rename ρ) .never = .ok (r', sig) ∧ r.Renamed ρ r' := by
  have wellFormed' := wellFormed.rename ρ small
  have sound : ∀ fr ∈ (State.start f).stack, fr.Sound f := Reaches.start.sound wellFormed
  have sound' : ∀ fr ∈ (State.start (f.rename ρ)).stack, fr.Sound (f.rename ρ) :=
    Reaches.start.sound wellFormed'
  have same : SameRun ρ (solve limit f .never) (solve limit (f.rename ρ) .never) :=
    State.run_rename wellFormed wellFormed' sound sound' limit
  refine ⟨solve_returns wellFormed, ?_⟩
  generalize solve limit f .never = run, solve limit (f.rename ρ) .never = run' at same
  constructor
  · intro e failed
    cases same with
    | failed => exact failed
    | ended => cases failed
  · intro r sig ended
    cases same with
    | failed => cases ended
    | ended same =>
      cases ended
      exact ⟨_, rfl, same⟩

/-- Two variables that differ in every model. -/
def unequal : Formula := ⟨2, [⟨[⟨1⟩, ⟨2⟩]⟩, ⟨[⟨-1⟩, ⟨-2⟩]⟩]⟩

/-- Names the first variable 3 and the second one 1, and flips the second. -/
def turned : Renaming unequal.numVars 3 where
  var v := if v = 1 then 3 else 1
  flips v := v == 2
  mapsTo := by
    intro v _
    dsimp only
    split <;> exact ⟨by decide, by decide⟩
  injOn := by
    rintro v ⟨least, most⟩ w ⟨least', most'⟩ same
    simp only [unequal] at most most'
    dsimp only at same
    split at same <;> split at same <;> omega

theorem unequal_turned : unequal.WellFormed ∧ (∀ v ∈ unequal.vars, turned.var v ≤ maxVar) ∧
    ∃ r', solve 7 (unequal.rename turned) .never = .ok (r', .never) ∧
      Result.Renamed turned ⟨.satisfiable ⟨#[true, false]⟩, 3, 0⟩ r' := by
  have wellFormed : unequal.WellFormed := by decide
  have small : ∀ v ∈ unequal.vars, turned.var v ≤ maxVar := by decide
  have solved : solve 7 unequal .never =
      .ok (⟨.satisfiable ⟨#[true, false]⟩, 3, 0⟩, .never) := by
    rw [solve, State.run_of_inl rfl rfl, State.run_of_inl rfl rfl, State.run_of_inr rfl rfl]
    rfl
  exact ⟨wellFormed, small, (solve_rename wellFormed turned small 7).2.2 _ _ solved⟩

end SatLab.Search
