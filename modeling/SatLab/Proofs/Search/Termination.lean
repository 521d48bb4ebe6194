import SatLab.Proofs.Search.Verdict
/-!
The search comes to an end without any limit. Each examination of a frame uses up some of the room
that the stack has, so a search examines no more frames than a binary tree over the variables that
occur has nodes. Within that many steps the counters cannot leave the word for up to 62 variables.
-/

set_option autoImplicit false
set_option relaxedAutoImplicit false

namespace SatLab.Search

/-- The search loop over `n` variables, under no limit, ends with a result after examining a
number of further frames. -/
inductive Halts (n : Nat) : State → Nat → Result → Prop
  | exhausted {s : State} (empty : s.stack = []) : Halts n s 0 (s.result .unsatisfiable)
  | solved {s : State} {fr : Frame} {rest : List Frame} {r : Result} (next : s.stack = fr :: rest)
      (stepped : s.step n fr rest = .ok (.inr r)) : Halts n s 1 r
  | more {s s' : State} {fr : Frame} {rest : List Frame} {count : Nat} {r : Result}
      (next : s.stack = fr :: rest) (stepped : s.step n fr rest = .ok (.inl s'))
      (later : Halts n s' count r) : Halts n s (count + 1) r

namespace Halts

variable {n count : Nat} {s : State} {r : Result}

theorem counts (halts : Halts n s count r) :
    r.outcome ≠ .inconclusive ∧ r.steps = s.steps + count ∧
      r.backtracks ≤ s.backtracks + count := by
  induction halts with
  | exhausted empty => exact ⟨Outcome.noConfusion, rfl, le_rfl⟩
  | solved next stepped =>
    obtain ⟨a, rfl⟩ := State.result_of_step stepped
    exact ⟨Outcome.noConfusion, rfl, Nat.le_succ _⟩
  | more next stepped later ih =>
    obtain ⟨decided, steps, backtracks⟩ := ih
    have counted := State.counts_of_step stepped
    refine ⟨decided, ?_, ?_⟩ <;> omega

theorem run_eq (halts : Halts n s count r) {budget : Nat} (enough : count ≤ budget) :
    s.run n budget .never = .ok (r, .never) := by
  induction halts generalizing budget with
  | exhausted empty => exact State.run_of_nil empty .never
  | solved next stepped =>
    obtain ⟨left, rfl⟩ : ∃ left, budget = left + 1 := ⟨budget - 1, by omega⟩
    exact State.run_of_inr next stepped
  | more next stepped later ih =>
    obtain ⟨left, rfl⟩ : ∃ left, budget = left + 1 := ⟨budget - 1, by omega⟩
    rw [State.run_of_inl next stepped]
    exact ih (by omega)

theorem unique {count' : Nat} {r' : Result} (halts : Halts n s count r)
    (halts' : Halts n s count' r') : count = count' ∧ r = r' := by
  have one := halts.run_eq (le_max_left count count')
  have two := halts'.run_eq (le_max_right count count')
  cases one.symm.trans two
  have steps := halts.counts.2.1.symm.trans halts'.counts.2.1
  exact ⟨Nat.add_left_cancel steps, rfl⟩

theorem run_cut (halts : Halts n s count r) {budget : Nat} (short : budget < count)
    (word : s.steps + budget + 1 < wordBound) :
    ∃ b ≤ r.backtracks,
      s.run n budget .never = .ok (⟨.inconclusive, s.steps + budget, b⟩, .never) := by
  obtain ⟨decided, steps, -⟩ := halts.counts
  have beyond : s.steps + budget < r.steps := by omega
  exact (State.run_of_decided (halts.run_eq le_rfl) decided budget).2 beyond word

theorem word_of_run (halts : Halts n s count r) {budget : Nat} {r' : Result} {sig : Signal}
    (short : budget < count) (ran : s.run n budget .never = .ok (r', sig)) :
    s.steps + budget + 1 < wordBound := by
  have stopped {s : State} {fr : Frame} {rest : List Frame} (next : s.stack = fr :: rest)
      (ran : s.run n 0 .never = .ok (r', sig)) : s.steps + 0 + 1 < wordBound := by
    rw [State.run_zero next] at ran
    split at ran
    · cases ran
    · omega
  induction halts generalizing budget with
  | exhausted empty => exact absurd short (Nat.not_lt_zero budget)
  | solved next stepped =>
    obtain rfl : budget = 0 := by omega
    exact stopped next ran
  | @more s s' fr rest count r next stepped later ih =>
    cases budget with
    | zero => exact stopped next ran
    | succ budget =>
      rw [State.run_of_inl next stepped] at ran
      have word := ih (by omega) ran
      have counted := State.counts_of_step stepped
      omega

end Halts

theorem Reaches.halts {f : Formula} {s : State} (wellFormed : f.WellFormed) (reach : Reaches f s) :
    ∃ count r, Halts f.numVars s count r ∧ count ≤ room f s.stack := by
  -- Each examination leaves less room than it found.
  induction measured : room f s.stack using Nat.strong_induction_on generalizing s with
  | h size ih =>
    subst measured
    cases stack : s.stack with
    | nil => exact ⟨0, _, .exhausted stack, Nat.zero_le _⟩
    | cons fr rest =>
      have sound : fr.Sound f := reach.sound wellFormed fr (stack ▸ List.mem_cons_self)
      have stepped := State.step_of_sound wellFormed sound s rest
      cases advanced : s.advance f fr rest with
      | inr r =>
        rw [advanced] at stepped
        have positive := fr.room_pos f
        refine ⟨1, r, .solved stack stepped, ?_⟩
        simp only [room, List.map_cons, List.sum_cons]
        omega
      | inl s' =>
        rw [advanced] at stepped
        have spent := (State.room_of_advance wellFormed advanced).2
        have smaller : room f s'.stack < room f s.stack := stack ▸ spent
        obtain ⟨count, r, halts, within⟩ := ih _ smaller (reach.step stack stepped) rfl
        exact ⟨count + 1, r, .more stack stepped halts, by omega⟩

private theorem Reaches.backtracks_le {f : Formula} {s : State} (reach : Reaches f s) :
    s.backtracks ≤ s.steps := by
  induction reach with
  | start => exact le_rfl
  | step reach next stepped ih =>
    have counted := State.counts_of_step stepped
    omega

private theorem tree_lt_wordBound {f : Formula} (few : f.vars.card ≤ 62) :
    2 ^ (f.vars.card + 1) < wordBound := by
  have power : 2 ^ (f.vars.card + 1) ≤ 2 ^ 63 := Nat.pow_le_pow_right (by omega) (by omega)
  exact power.trans_lt (by decide)

private theorem Reaches.counters_lt {f : Formula} {s : State} (wellFormed : f.WellFormed)
    (few : f.vars.card ≤ 62) (reach : Reaches f s) :
    s.steps + 1 < wordBound ∧ s.backtracks + 1 < wordBound := by
  have tree := tree_lt_wordBound few
  have positive := Nat.two_pow_pos (f.vars.card + 1)
  have total := reach.steps_add_room_le wellFormed
  have fewer := reach.backtracks_le
  omega

private theorem stepBound_lt_of_card_le {f : Formula} (few : f.vars.card ≤ 62) (limit : Nat) :
    stepBound limit f + 1 < wordBound := by
  have tree := tree_lt_wordBound few
  have positive := Nat.two_pow_pos (f.vars.card + 1)
  have least : stepBound limit f ≤ 2 ^ (f.vars.card + 1) - 1 := min_le_right _ _
  omega

/-- The search for a model of a well-formed formula ends by itself, after examining at most as many
frames as a binary tree over the variables that occur has nodes. Every limit of at least that number
returns the answer that the loop ends with. With at most 62 such variables, the search returns under
every limit and its counters stay within the word in every state on the way. -/
theorem solve_halts {f : Formula} (wellFormed : f.WellFormed) :
    ∃ count r, Halts f.numVars (.start f) count r ∧ count ≤ 2 ^ (f.vars.card + 1) - 1 ∧
      r.outcome ≠ .inconclusive ∧ r.steps = count ∧ r.backtracks ≤ count ∧
      (∀ limit, 2 ^ (f.vars.card + 1) - 1 ≤ limit → solve limit f .never = .ok (r, .never)) ∧
      (f.vars.card ≤ 62 →
        (∀ limit, ∃ r', solve limit f .never = .ok (r', .never)) ∧
        ∀ s, Reaches f s → s.steps + 1 < wordBound ∧ s.backtracks + 1 < wordBound) := by
  obtain ⟨count, r, halts, within⟩ := Reaches.halts wellFormed .start
  have bound : count ≤ 2 ^ (f.vars.card + 1) - 1 := by
    simpa [State.start, room, Frame.room, Frame.root] using within
  obtain ⟨decided, steps, backtracks⟩ := halts.counts
  simp only [State.start, Nat.zero_add] at steps backtracks
  refine ⟨count, r, halts, bound, decided, steps, backtracks, fun limit enough => ?_, fun few => ?_⟩
  · exact halts.run_eq (bound.trans enough)
  · refine ⟨fun limit => ?_, fun s reach => reach.counters_lt wellFormed few⟩
    exact solve_returns wellFormed (stepBound_lt_of_card_le few limit)

/-- The four clauses over two variables, with every literal repeated so that none becomes a unit
before both variables have a value. -/
def doubledSquare : Formula :=
  ⟨2, [⟨[⟨1⟩, ⟨1⟩, ⟨2⟩, ⟨2⟩]⟩, ⟨[⟨1⟩, ⟨1⟩, ⟨-2⟩, ⟨-2⟩]⟩, ⟨[⟨-1⟩, ⟨-1⟩, ⟨2⟩, ⟨2⟩]⟩,
    ⟨[⟨-1⟩, ⟨-1⟩, ⟨-2⟩, ⟨-2⟩]⟩]⟩

private theorem solve_doubledSquare :
    solve 7 doubledSquare .never = .ok (⟨.unsatisfiable, 7, 4⟩, .never) := by
  rw [solve, State.run_of_inl rfl rfl, State.run_of_inl rfl rfl, State.run_of_inl rfl rfl,
    State.run_of_inl rfl rfl, State.run_of_inl rfl rfl, State.run_of_inl rfl rfl,
    State.run_of_inl rfl rfl, State.run_of_nil rfl]
  rfl

/-- The bound is attained: this search takes all the steps of the tree over its two variables. -/
theorem doubledSquare_halts : doubledSquare.WellFormed ∧ doubledSquare.vars.card = 2 ∧
    Halts 2 (.start doubledSquare) 7 ⟨.unsatisfiable, 7, 4⟩ := by
  have wellFormed : doubledSquare.WellFormed := by decide
  have two : doubledSquare.vars.card = 2 := by decide
  obtain ⟨count, r, halts, -, -, steps, -, answers, -⟩ := solve_halts wellFormed
  have answer := answers 7 (by rw [two]; decide)
  rw [solve_doubledSquare] at answer
  cases answer
  cases steps
  exact ⟨wellFormed, two, halts⟩

end SatLab.Search
