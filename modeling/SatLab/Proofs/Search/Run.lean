import SatLab.Proofs.Search.Frames
/-!
Runs of the search that no signal stops. A run is a chain of examinations of sound frames and ends
in one of four ways: with the stack empty, with a solved formula, at the step limit, or with a step
count that leaves the word. The limit decides only how far along the chain the run gets.
-/

set_option autoImplicit false
set_option relaxedAutoImplicit false

namespace SatLab.Search

def State.advance (f : Formula) (s : State) (fr : Frame) (rest : List Frame) : State ⊕ Result :=
  match demand (f.restrictAll fr.trail) with
  | .solved => .inr ⟨.satisfiable (modelAsserting f.numVars fr.trail), s.steps + 1, s.backtracks⟩
  | .falsified => .inl ⟨rest, s.steps + 1, s.backtracks + 1⟩
  | .unit l => .inl ⟨fr.child (f.restrictAll fr.trail) l :: rest, s.steps + 1, s.backtracks⟩
  | .split l => .inl ⟨fr.child (f.restrictAll fr.trail) l ::
      fr.child (f.restrictAll fr.trail) (-l) :: rest, s.steps + 1, s.backtracks⟩

theorem State.advance_cases {f : Formula} {s s' : State} {fr : Frame} {rest : List Frame}
    (advanced : s.advance f fr rest = .inl s') :
    (demand (f.restrictAll fr.trail) = .falsified ∧
        s' = ⟨rest, s.steps + 1, s.backtracks + 1⟩) ∨
      (∃ l, demand (f.restrictAll fr.trail) = .unit l ∧
        s' = ⟨fr.child (f.restrictAll fr.trail) l :: rest, s.steps + 1, s.backtracks⟩) ∨
      ∃ l, demand (f.restrictAll fr.trail) = .split l ∧
        s' = ⟨fr.child (f.restrictAll fr.trail) l ::
          fr.child (f.restrictAll fr.trail) (-l) :: rest, s.steps + 1, s.backtracks⟩ := by
  unfold advance at advanced
  cases demanded : demand (f.restrictAll fr.trail) with
  | solved => simp [demanded] at advanced
  | falsified =>
    rw [demanded] at advanced
    exact .inl ⟨rfl, (Sum.inl.inj advanced).symm⟩
  | unit l =>
    rw [demanded] at advanced
    exact .inr (.inl ⟨l, rfl, (Sum.inl.inj advanced).symm⟩)
  | split l =>
    rw [demanded] at advanced
    exact .inr (.inr ⟨l, rfl, (Sum.inl.inj advanced).symm⟩)

theorem State.solved_of_advance {f : Formula} {s : State} {fr : Frame} {rest : List Frame}
    {r : Result} (advanced : s.advance f fr rest = .inr r) :
    demand (f.restrictAll fr.trail) = .solved ∧
      r = ⟨.satisfiable (modelAsserting f.numVars fr.trail), s.steps + 1, s.backtracks⟩ := by
  unfold advance at advanced
  cases demanded : demand (f.restrictAll fr.trail) with
  | solved =>
    rw [demanded] at advanced
    exact ⟨rfl, (Sum.inr.inj advanced).symm⟩
  | falsified | unit | split => simp [demanded] at advanced

theorem State.step_of_sound {f : Formula} {fr : Frame} (wellFormed : f.WellFormed)
    (sound : fr.Sound f) (s : State) (rest : List Frame) :
    s.step f.numVars fr rest = .ok (s.advance f fr rest) := by
  rw [step, sound.expand_eq wellFormed, advance]
  cases demand (f.restrictAll fr.trail) <;> rfl

section Run

variable {n budget : Nat} {s s' : State} {fr : Frame} {rest : List Frame} {r : Result}

theorem State.run_of_nil (empty : s.stack = []) (sig : Signal) :
    s.run n budget sig = .ok (s.result .unsatisfiable, sig) := by
  rw [run, empty]
  rfl

theorem State.run_of_fired {sig : Signal} (next : s.stack = fr :: rest)
    (fired : sig.isFired = true) :
    s.run n budget sig = .ok (s.result .inconclusive, sig.next) := by
  rw [run, next]
  simp [Task.poll, fired]

theorem State.run_zero_of_quiet {sig : Signal} (next : s.stack = fr :: rest)
    (quiet : sig.isFired = false) :
    s.run n 0 sig =
      if wordBound ≤ s.steps + 1 then .error .overflow
      else .ok (s.result .inconclusive, sig.next) := by
  rw [run, next]
  by_cases full : wordBound ≤ s.steps + 1 <;> simp [Task.poll, quiet, full]

theorem State.run_succ_of_quiet {sig : Signal} (next : s.stack = fr :: rest)
    (quiet : sig.isFired = false) :
    s.run n (budget + 1) sig = s.step n fr rest >>= fun
      | .inl s' => s'.run n budget sig.next
      | .inr r => .ok (r, sig.next) := by
  rw [run, next]
  cases stepped : s.step n fr rest with
  | error e => simp [Task.poll, quiet, stepped]
  | ok outcome => cases outcome <;> simp [Task.poll, quiet, stepped]

theorem State.run_zero (next : s.stack = fr :: rest) :
    s.run n 0 .never =
      if wordBound ≤ s.steps + 1 then .error .overflow
      else .ok (s.result .inconclusive, .never) :=
  run_zero_of_quiet next rfl

theorem State.run_succ (next : s.stack = fr :: rest) :
    s.run n (budget + 1) .never = s.step n fr rest >>= fun
      | .inl s' => s'.run n budget .never
      | .inr r => .ok (r, .never) :=
  run_succ_of_quiet next rfl

theorem State.run_of_inl (next : s.stack = fr :: rest)
    (stepped : s.step n fr rest = .ok (.inl s')) :
    s.run n (budget + 1) .never = s'.run n budget .never := by
  rw [run_succ next, stepped, ok_bind]

theorem State.run_of_inr (next : s.stack = fr :: rest) (stepped : s.step n fr rest = .ok (.inr r)) :
    s.run n (budget + 1) .never = .ok (r, .never) := by
  rw [run_succ next, stepped, ok_bind]

theorem State.counts_of_step (stepped : s.step n fr rest = .ok (.inl s')) :
    s'.steps = s.steps + 1 ∧ s.backtracks ≤ s'.backtracks ∧ s'.backtracks ≤ s.backtracks + 1 := by
  rw [step] at stepped
  cases expanded : fr.expand n with
  | error e => simp [expanded] at stepped
  | ok expansion =>
    rw [expanded, ok_bind] at stepped
    cases expansion with
    | model a => cases stepped
    | conflict =>
      cases stepped
      exact ⟨rfl, Nat.le_succ _, Nat.le_refl _⟩
    | next frames =>
      cases stepped
      exact ⟨rfl, Nat.le_refl _, Nat.le_succ _⟩

theorem State.result_of_step (stepped : s.step n fr rest = .ok (.inr r)) :
    ∃ a, r = ⟨.satisfiable a, s.steps + 1, s.backtracks⟩ := by
  rw [step] at stepped
  cases expanded : fr.expand n with
  | error e => simp [expanded] at stepped
  | ok expansion =>
    rw [expanded, ok_bind] at stepped
    cases expansion with
    | model a =>
      cases stepped
      exact ⟨a, rfl⟩
    | conflict => cases stepped
    | next frames => cases stepped

/-- A run that ends has no frame left, gives up in the state it is in, or examines the next frame
first. -/
theorem State.run_cases {sig sig' : Signal} (ran : s.run n budget sig = .ok (r, sig')) :
    s.stack = [] ∧ r = s.result .unsatisfiable ∨ r = s.result .inconclusive ∨
      ∃ fr rest left, s.stack = fr :: rest ∧ budget = left + 1 ∧
        (s.step n fr rest = .ok (.inr r) ∨
          ∃ s', s.step n fr rest = .ok (.inl s') ∧ s'.run n left sig.next = .ok (r, sig')) := by
  cases stack : s.stack with
  | nil =>
    rw [run_of_nil stack] at ran
    cases ran
    exact .inl ⟨rfl, rfl⟩
  | cons fr rest =>
    cases fired : sig.isFired with
    | true =>
      rw [run_of_fired stack fired] at ran
      cases ran
      exact .inr (.inl rfl)
    | false =>
      cases budget with
      | zero =>
        rw [run_zero_of_quiet stack fired] at ran
        split at ran
        · cases ran
        · cases ran
          exact .inr (.inl rfl)
      | succ left =>
        rw [run_succ_of_quiet stack fired] at ran
        cases stepped : s.step n fr rest with
        | error e => simp [stepped] at ran
        | ok outcome =>
          rw [stepped, ok_bind] at ran
          cases outcome with
          | inl s' => exact .inr (.inr ⟨fr, rest, left, rfl, rfl, .inr ⟨s', stepped, ran⟩⟩)
          | inr r' =>
            cases ran
            exact .inr (.inr ⟨fr, rest, left, rfl, rfl, .inl stepped⟩)

private theorem State.run_monotone {sig sig' : Signal} (ran : s.run n budget sig = .ok (r, sig')) :
    s.steps ≤ r.steps ∧ s.backtracks ≤ r.backtracks := by
  induction budget using Nat.strong_induction_on generalizing s sig with
  | h budget ih =>
    rcases run_cases ran with
      ⟨-, rfl⟩ | rfl | ⟨fr, rest, left, stack, rfl, last | ⟨s', next, later⟩⟩
    · exact ⟨le_rfl, le_rfl⟩
    · exact ⟨le_rfl, le_rfl⟩
    · obtain ⟨a, rfl⟩ := result_of_step last
      exact ⟨Nat.le_succ _, le_rfl⟩
    · have counted := counts_of_step next
      have kept := ih left (Nat.lt_succ_self left) later
      omega

/-- A decided run under one limit settles the runs under all others: a limit that is not below its
step count gives the same result, and a lower one gives up exactly there. -/
theorem State.run_of_decided {sig : Signal} (ran : s.run n budget .never = .ok (r, sig))
    (decided : r.outcome ≠ .inconclusive) (budget' : Nat) :
    (r.steps ≤ s.steps + budget' → s.run n budget' .never = .ok (r, .never)) ∧
      (s.steps + budget' < r.steps → s.steps + budget' + 1 < wordBound →
        ∃ b ≤ r.backtracks,
          s.run n budget' .never = .ok (⟨.inconclusive, s.steps + budget', b⟩, .never)) := by
  -- Both runs take the same steps, so the two budgets fall together.
  induction budget using Nat.strong_induction_on generalizing s budget' with
  | h budget ih =>
    have backtracks := (run_monotone ran).2
    rcases run_cases ran with
      ⟨stack, rfl⟩ | rfl | ⟨fr, rest, left, stack, rfl, last | ⟨s', next, later⟩⟩
    · rw [run_of_nil stack]
      simp [result]
    · exact absurd rfl decided
    · obtain ⟨a, rfl⟩ := result_of_step last
      cases budget' with
      | zero =>
        refine ⟨fun enough => absurd enough (by simp), fun _ word => ⟨s.backtracks, le_rfl, ?_⟩⟩
        rw [run_zero stack, if_neg (by omega)]
        rfl
      | succ budget' =>
        rw [run_of_inr stack last]
        exact ⟨fun _ => rfl, fun short => absurd short (by simp)⟩
    · have counted := counts_of_step next
      cases budget' with
      | zero =>
        have later := (run_monotone later).1
        refine ⟨fun enough => by omega, fun _ word => ⟨s.backtracks, backtracks, ?_⟩⟩
        rw [run_zero stack, if_neg (by omega)]
        rfl
      | succ budget' =>
        obtain ⟨enough, short⟩ := ih left (Nat.lt_succ_self left) later budget'
        rw [run_of_inl stack next]
        have total : s'.steps + budget' = s.steps + (budget' + 1) := by omega
        rw [total] at enough short
        exact ⟨enough, short⟩

end Run

/-- The states that a search passes through. -/
inductive Reaches (f : Formula) : State → Prop
  | start : Reaches f (.start f)
  | step {s s' : State} {fr : Frame} {rest : List Frame} (reach : Reaches f s)
      (next : s.stack = fr :: rest) (stepped : s.step f.numVars fr rest = .ok (.inl s')) :
      Reaches f s'

/-- A literal that is asserted at a restriction of a well-formed formula is valid and over a
variable that is left; so is its negation. -/
theorem asserted_left {f : Formula} {trail : List Literal} {d : Demand} {l : Literal}
    (wellFormed : f.WellFormed) (demanded : demand (f.restrictAll trail) = d)
    (asserts : d = .unit l ∨ d = .split l) :
    l.Valid ∧ l.var ∈ (f.restrictAll trail).vars := by
  have occurs := (justified_of_demand demanded).occurs asserts
  exact ⟨((wellFormed.restrictAll trail).of_mem_literals occurs).1, Formula.var_mem_vars occurs⟩

theorem State.sound_of_advance {f : Formula} {s s' : State} {fr : Frame} {rest : List Frame}
    (wellFormed : f.WellFormed) (sound : ∀ other ∈ fr :: rest, other.Sound f)
    (advanced : s.advance f fr rest = .inl s') : ∀ other ∈ s'.stack, other.Sound f := by
  have here := sound fr List.mem_cons_self
  have below := fun other member => sound other (List.mem_cons_of_mem fr member)
  rcases advance_cases advanced with ⟨-, rfl⟩ | ⟨l, demanded, rfl⟩ | ⟨l, demanded, rfl⟩
  · exact below
  · obtain ⟨valid, left⟩ := asserted_left wellFormed demanded (.inl rfl)
    intro other member
    rcases List.mem_cons.mp member with rfl | older
    · exact here.child valid left
    · exact below other older
  · obtain ⟨valid, left⟩ := asserted_left wellFormed demanded (.inr rfl)
    intro other member
    rcases List.mem_cons.mp member with rfl | second
    · exact here.child valid left
    · rcases List.mem_cons.mp second with rfl | older
      · exact here.child valid.neg (Literal.var_neg l ▸ left)
      · exact below other older

theorem Reaches.sound {f : Formula} {s : State} (wellFormed : f.WellFormed) (reach : Reaches f s) :
    ∀ fr ∈ s.stack, fr.Sound f := by
  induction reach with
  | start =>
    intro fr member
    obtain rfl := List.mem_singleton.mp member
    exact Frame.sound_root f
  | step reach next stepped ih =>
    rw [next] at ih
    rw [State.step_of_sound wellFormed (ih _ List.mem_cons_self)] at stepped
    exact State.sound_of_advance wellFormed ih (Except.ok.inj stepped)

/-- How a search that may take `limit` steps ends in a state. -/
inductive Ends (f : Formula) (limit : Nat) (s : State) : Except Fault Result → Prop
  | exhausted (empty : s.stack = []) (within : s.steps ≤ limit) :
      Ends f limit s (.ok (s.result .unsatisfiable))
  | stopped {fr : Frame} {rest : List Frame} (next : s.stack = fr :: rest)
      (reached : s.steps = limit) : Ends f limit s (.ok (s.result .inconclusive))
  | solved {fr : Frame} {rest : List Frame} (next : s.stack = fr :: rest)
      (within : s.steps < limit) (solved : demand (f.restrictAll fr.trail) = .solved) :
      Ends f limit s (.ok ⟨.satisfiable (modelAsserting f.numVars fr.trail), s.steps + 1,
        s.backtracks⟩)
  | overflow {fr : Frame} {rest : List Frame} (next : s.stack = fr :: rest)
      (reached : s.steps = limit) (full : wordBound ≤ limit + 1) :
      Ends f limit s (.error .overflow)

theorem State.run_ends {f : Formula} {s : State} (wellFormed : f.WellFormed) (reach : Reaches f s)
    (budget : Nat) :
    ∃ s' out, Reaches f s' ∧ Ends f (s.steps + budget) s' out ∧
      s.run f.numVars budget .never = out.map fun r => (r, .never) := by
  induction budget generalizing s with
  | zero =>
    cases stack : s.stack with
    | nil => exact ⟨s, _, reach, .exhausted stack le_rfl, run_of_nil stack .never⟩
    | cons fr rest =>
      rw [run_zero stack]
      by_cases full : wordBound ≤ s.steps + 1
      · exact ⟨s, _, reach, .overflow stack rfl full, if_pos full⟩
      · exact ⟨s, _, reach, .stopped stack rfl, if_neg full⟩
  | succ budget ih =>
    cases stack : s.stack with
    | nil => exact ⟨s, _, reach, .exhausted stack (Nat.le_add_right _ _), run_of_nil stack .never⟩
    | cons fr rest =>
      have sound : fr.Sound f := reach.sound wellFormed fr (stack ▸ List.mem_cons_self)
      have stepped := step_of_sound wellFormed sound s rest
      cases advanced : s.advance f fr rest with
      | inl next =>
        rw [advanced] at stepped
        have counted := (counts_of_step stepped).1
        have steps : next.steps + budget = s.steps + (budget + 1) := by omega
        rw [run_of_inl stack stepped, ← steps]
        exact ih (.step reach stack stepped)
      | inr r =>
        obtain ⟨solved, rfl⟩ := solved_of_advance advanced
        rw [advanced] at stepped
        exact ⟨s, .ok _, reach, .solved stack (by omega) solved, run_of_inr stack stepped⟩

end SatLab.Search
