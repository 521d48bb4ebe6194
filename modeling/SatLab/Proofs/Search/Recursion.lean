import SatLab.Proofs.Search.Verdict
/-!
The search as a recursion on what is left of the formula. The frames below the one examined are
the calls still to be made, so a run on a stack is a call followed by what its result resumes.
-/

set_option autoImplicit false
set_option relaxedAutoImplicit false

namespace SatLab.Search

/-- The recursive search in a formula, with the literals asserted so far and the counters. A call
counts one step and gives up when the count passes the limit. A solved formula yields the model
that makes the variables asserted positively true; a falsified one is a conflict. Else the first
unit literal is asserted, or the most frequent literal and, only if that fails, its negation. -/
def explore (limit : Nat) (g : Formula) (trail : List Literal) (steps backtracks : Nat) :
    Except Fault Result := do
  let count ← addCounters steps 1
  if limit < count then return ⟨.inconclusive, steps, backtracks⟩
  else match demanded : demand g with
    | .solved => return ⟨.satisfiable (modelAsserting g.numVars trail), count, backtracks⟩
    | .falsified => return ⟨.unsatisfiable, count, backtracks + 1⟩
    | .unit l => explore limit (g.restrict l) (l :: trail) count backtracks
    | .split l =>
      let first ← explore limit (g.restrict l) (l :: trail) count backtracks
      match first.outcome with
      | .unsatisfiable =>
        explore limit (g.restrict (-l)) (-l :: trail) first.steps first.backtracks
      | _ => return first
termination_by g.vars.card
decreasing_by
  · exact Formula.card_vars_restrict_lt
      (Formula.var_mem_vars ((justified_of_demand demanded).occurs (.inl rfl)))
  · exact Formula.card_vars_restrict_lt
      (Formula.var_mem_vars ((justified_of_demand demanded).occurs (.inr rfl)))
  · exact Formula.card_vars_restrict_lt (Literal.var_neg l ▸
      Formula.var_mem_vars ((justified_of_demand demanded).occurs (.inr rfl)))

/-- What follows a call that was made with frames below it on the stack. -/
def resume (n limit : Nat) (rest : List Frame) (r : Result) : Except Fault (Result × Signal) :=
  match r.outcome with
  | .unsatisfiable => State.run n (limit - r.steps) ⟨rest, r.steps, r.backtracks⟩ .never
  | _ => .ok (r, .never)

section Call

variable {limit : Nat} {g : Formula} {trail : List Literal} {steps backtracks : Nat}

private theorem explore_of_limit : explore limit g trail limit backtracks =
    if wordBound ≤ limit + 1 then .error .overflow
    else .ok ⟨.inconclusive, limit, backtracks⟩ := by
  rw [explore, addCounters]
  by_cases full : wordBound ≤ limit + 1
  · simp [full, Nat.not_lt.mpr full]
  · simp [full, Nat.not_le.mp full]

variable (within : steps < limit) (word : limit < wordBound)

include within word

private theorem explore_of_lt : explore limit g trail steps backtracks =
    match demand g with
    | .solved => .ok ⟨.satisfiable (modelAsserting g.numVars trail), steps + 1, backtracks⟩
    | .falsified => .ok ⟨.unsatisfiable, steps + 1, backtracks + 1⟩
    | .unit l => explore limit (g.restrict l) (l :: trail) (steps + 1) backtracks
    | .split l => explore limit (g.restrict l) (l :: trail) (steps + 1) backtracks >>= fun first =>
      match first.outcome with
      | .unsatisfiable =>
        explore limit (g.restrict (-l)) (-l :: trail) first.steps first.backtracks
      | _ => .ok first := by
  have fits : steps + 1 < wordBound := by omega
  have below : ¬ limit < steps + 1 := by omega
  rw [explore, addCounters, if_pos fits, ok_bind, if_neg below]
  split <;> simp [*]

end Call

private theorem explore_steps_le {limit : Nat} (word : limit < wordBound) {g : Formula}
    {trail : List Literal} {steps backtracks : Nat} {r : Result} (within : steps ≤ limit)
    (explored : explore limit g trail steps backtracks = .ok r) : r.steps ≤ limit := by
  induction measured : g.vars.card using Nat.strong_induction_on
    generalizing g trail steps backtracks r with
  | h size ih =>
    subst measured
    rcases Nat.lt_or_eq_of_le within with below | rfl
    · rw [explore_of_lt below word] at explored
      cases demanded : demand g with
      | solved | falsified =>
        simp only [demanded] at explored
        cases explored
        exact below
      | unit l =>
        simp only [demanded] at explored
        have left := Formula.var_mem_vars ((justified_of_demand demanded).occurs (.inl rfl))
        exact ih _ (Formula.card_vars_restrict_lt left) below explored rfl
      | split l =>
        simp only [demanded] at explored
        have left := Formula.var_mem_vars ((justified_of_demand demanded).occurs (.inr rfl))
        have opposite : (-l).var ∈ g.vars := Literal.var_neg l ▸ left
        cases called : explore limit (g.restrict l) (l :: trail) (steps + 1) backtracks with
        | error e => simp [called] at explored
        | ok first =>
          have middle := ih _ (Formula.card_vars_restrict_lt left) below called rfl
          rw [called, ok_bind] at explored
          cases answer : first.outcome with
          | unsatisfiable =>
            simp only [answer] at explored
            exact ih _ (Formula.card_vars_restrict_lt opposite) middle explored rfl
          | satisfiable | inconclusive =>
            simp only [answer] at explored
            cases explored
            exact middle
    · rw [explore_of_limit] at explored
      split at explored
      · cases explored
      · cases explored
        exact le_rfl

/-- A run on a stack whose first frame is sound is the call for that frame, followed by what its
result resumes. -/
private theorem run_eq_explore {f : Formula} (wellFormed : f.WellFormed) {limit : Nat}
    (word : limit < wordBound) {fr : Frame} (sound : fr.Sound f) {rest : List Frame}
    {steps backtracks : Nat} (within : steps ≤ limit) :
    State.run f.numVars (limit - steps) ⟨fr :: rest, steps, backtracks⟩ .never =
      explore limit (f.restrictAll fr.trail) fr.trail steps backtracks >>=
        resume f.numVars limit rest := by
  -- Each call is in a formula with fewer variables, whatever stack and counters it finds.
  induction measured : (f.restrictAll fr.trail).vars.card using Nat.strong_induction_on
    generalizing fr rest steps backtracks with
  | h size ih =>
    subst measured
    rcases Nat.lt_or_eq_of_le within with below | rfl
    · have budget : limit - steps = limit - (steps + 1) + 1 := by omega
      rw [budget, State.run_succ rfl, State.step_of_sound wellFormed sound, ok_bind, State.advance,
        explore_of_lt below word]
      cases demanded : demand (f.restrictAll fr.trail) with
      | solved => simp [resume]
      | falsified => rfl
      | unit l =>
        obtain ⟨valid, left⟩ := asserted_left wellFormed demanded (.inl rfl)
        exact ih _ (Formula.card_vars_restrict_lt left) (sound.child valid left) below rfl
      | split l =>
        obtain ⟨valid, left⟩ := asserted_left wellFormed demanded (.inr rfl)
        have opposite : (-l).var ∈ (f.restrictAll fr.trail).vars := Literal.var_neg l ▸ left
        have call : State.run f.numVars (limit - (steps + 1))
            ⟨fr.child (f.restrictAll fr.trail) l :: fr.child (f.restrictAll fr.trail) (-l) :: rest,
              steps + 1, backtracks⟩ .never =
            explore limit ((f.restrictAll fr.trail).restrict l) (l :: fr.trail) (steps + 1)
              backtracks >>=
                resume f.numVars limit (fr.child (f.restrictAll fr.trail) (-l) :: rest) :=
          ih _ (Formula.card_vars_restrict_lt left) (sound.child valid left) below rfl
        refine call.trans ?_
        cases called : explore limit ((f.restrictAll fr.trail).restrict l) (l :: fr.trail)
          (steps + 1) backtracks with
        | error e => simp [called]
        | ok first =>
          have middle := explore_steps_le word below called
          simp only [called, ok_bind, resume]
          cases answer : first.outcome with
          | unsatisfiable =>
            exact ih _ (Formula.card_vars_restrict_lt opposite) (sound.child valid.neg opposite)
              middle rfl
          | satisfiable | inconclusive => simp [resume, answer]
    · rw [Nat.sub_self, State.run_zero rfl, explore_of_limit]
      split <;> rfl

/-- The search on a stack is the recursive search: it reports the same outcome, the same model,
steps and backtracks, for every limit that fits the word. Both return unless their steps can fill
the word. -/
theorem solve_eq_explore {f : Formula} (wellFormed : f.WellFormed) {limit : Nat}
    (word : limit < wordBound) :
    solve limit f .never = (explore limit f [] 0 0).map (fun r => (r, .never)) ∧
      (stepBound limit f + 1 < wordBound → ∃ r, explore limit f [] 0 0 = .ok r) := by
  have ran : solve limit f .never = explore limit f [] 0 0 >>= resume f.numVars limit [] :=
    run_eq_explore wellFormed word (Frame.sound_root f) (Nat.zero_le limit)
  have same : solve limit f .never = (explore limit f [] 0 0).map fun r => (r, .never) := by
    rw [ran]
    cases explore limit f [] 0 0 with
    | error e => rfl
    | ok r =>
      rcases r with ⟨outcome, steps, backtracks⟩
      cases outcome with
      | unsatisfiable => exact State.run_of_nil rfl .never
      | satisfiable | inconclusive => rfl
  refine ⟨same, fun small => ?_⟩
  obtain ⟨r, returned⟩ := solve_returns wellFormed small
  rw [same] at returned
  cases explored : explore limit f [] 0 0 with
  | error e => simp [explored, Except.map] at returned
  | ok r' => exact ⟨r', rfl⟩

theorem square_explored : square.WellFormed ∧ 7 < wordBound ∧
    explore 7 square [] 0 0 = .ok ⟨.unsatisfiable, 5, 2⟩ := by
  have wellFormed : square.WellFormed := by decide
  have word : 7 < wordBound := by decide
  have same := (solve_eq_explore wellFormed word).1
  rw [solve_square] at same
  cases explored : explore 7 square [] 0 0 with
  | error e => simp [explored, Except.map] at same
  | ok r =>
    simp only [explored, Except.map, Except.ok.injEq, Prod.mk.injEq, and_true] at same
    exact ⟨wellFormed, word, congrArg Except.ok same.symm⟩

end SatLab.Search
