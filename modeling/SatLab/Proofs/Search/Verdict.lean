import Mathlib.Algebra.Ring.Nat
import SatLab.Proofs.Search.Run
/-!
The verdicts of the search. The frames on the stack share out the models that are still possible:
every model agrees with the trail of exactly one of them, so an empty stack leaves none. Each frame
has room for as many steps as a binary tree over its variables has nodes, so the search ends.
-/

set_option autoImplicit false
set_option relaxedAutoImplicit false

namespace SatLab.Search

/-- The number of frames on a stack whose trails an assignment agrees with. -/
def covering (a : Assignment) (stack : List Frame) : Nat :=
  stack.countP fun fr => decide (a.Agrees fr.trail)

private theorem covering_cons (a : Assignment) (fr : Frame) (stack : List Frame) :
    covering a (fr :: stack) = covering a stack + if a.Agrees fr.trail then 1 else 0 := by
  simp [covering, List.countP_cons]

/-- A model agrees with one of the frames that examining a sound frame leaves exactly when it
agrees with that frame. -/
private theorem State.covering_of_advance {f : Formula} {s s' : State} {fr : Frame}
    {rest : List Frame} {a : Assignment} (wellFormed : f.WellFormed) (sound : fr.Sound f)
    (model : f.IsModel a) (advanced : s.advance f fr rest = .inl s') :
    covering a s'.stack = covering a (fr :: rest) := by
  have left : a.Agrees fr.trail → (f.restrictAll fr.trail).IsModel a := by
    intro agrees
    have valid := fun l member => (sound.proper.occurs l member).1
    exact (Formula.isModel_restrictAll_iff valid agrees).mpr model
  rcases advance_cases advanced with
    ⟨demanded, rfl⟩ | ⟨l, demanded, rfl⟩ | ⟨l, demanded, rfl⟩
  · have disagrees : ¬ a.Agrees fr.trail := fun agrees =>
      not_isModel_of_hasEmptyClause (justified_of_demand demanded) a (left agrees)
    simp [covering_cons, disagrees]
  · have forced : a.Agrees (l :: fr.trail) ↔ a.Agrees fr.trail := by
      rw [Assignment.agrees_cons]
      refine and_iff_right_of_imp fun agrees => ?_
      obtain ⟨k, alone, holds⟩ := (left agrees).2 _ (justified_of_demand demanded)
      exact List.mem_singleton.mp alone ▸ holds
    simp [covering_cons, Frame.child, forced]
  · obtain ⟨valid, -⟩ := asserted_left wellFormed demanded (.inr rfl)
    have covered : l.var ≤ a.size := by
      have occurs := (justified_of_demand demanded).occurs (.inr rfl)
      have bound := ((wellFormed.restrictAll fr.trail).of_mem_literals occurs).2
      rw [model.1]
      simpa using bound
    -- The two frames share out the assignments that agree with the trail.
    have opposite := Assignment.satisfies_neg_iff valid covered
    by_cases agrees : a.Agrees fr.trail
    · by_cases holds : a.Satisfies l <;>
        simp [covering_cons, Frame.child, Assignment.agrees_cons, agrees, holds, opposite]
    · simp [covering_cons, Frame.child, Assignment.agrees_cons, agrees]

theorem Reaches.covering_eq_one {f : Formula} {s : State} {a : Assignment}
    (wellFormed : f.WellFormed) (reach : Reaches f s) (model : f.IsModel a) :
    covering a s.stack = 1 := by
  induction reach with
  | start => simp [State.start, covering, Frame.root, Assignment.agrees_nil]
  | step reach next stepped ih =>
    have sound := reach.sound wellFormed _ (next ▸ List.mem_cons_self)
    rw [State.step_of_sound wellFormed sound] at stepped
    rw [State.covering_of_advance wellFormed sound model (Except.ok.inj stepped), ← next]
    exact ih

/-- The steps that a frame has room for: the nodes of a binary tree over its variables. -/
def Frame.room (f : Formula) (fr : Frame) : Nat := 2 ^ ((f.restrictAll fr.trail).vars.card + 1) - 1

/-- The steps that a stack has room for. -/
def room (f : Formula) (stack : List Frame) : Nat := (stack.map (Frame.room f)).sum

theorem Frame.room_pos (f : Formula) (fr : Frame) : 0 < fr.room f := by
  have two : 2 ^ 1 ≤ 2 ^ ((f.restrictAll fr.trail).vars.card + 1) :=
    Nat.pow_le_pow_right (by omega) (Nat.le_add_left 1 _)
  simp only [room]
  omega

private theorem Frame.room_child {f : Formula} {fr : Frame} {l : Literal}
    (left : l.var ∈ (f.restrictAll fr.trail).vars) :
    2 * (fr.child (f.restrictAll fr.trail) l).room f + 1 ≤ fr.room f := by
  have fewer := Formula.card_vars_restrict_lt left
  have power := Nat.pow_le_pow_right (n := 2) (by omega) fewer
  have double := Nat.pow_succ (n := 2) (m := (f.restrictAll fr.trail).vars.card)
  have positive := Nat.two_pow_pos (((f.restrictAll fr.trail).restrict l).vars.card + 1)
  simp only [room, child, Formula.restrictAll_cons]
  omega

theorem State.room_of_advance {f : Formula} {s s' : State} {fr : Frame} {rest : List Frame}
    (wellFormed : f.WellFormed) (advanced : s.advance f fr rest = .inl s') :
    s'.steps = s.steps + 1 ∧ room f s'.stack + 1 ≤ room f (fr :: rest) := by
  rcases advance_cases advanced with ⟨-, rfl⟩ | ⟨l, demanded, rfl⟩ | ⟨l, demanded, rfl⟩
  · have positive := fr.room_pos f
    simp only [room, List.map_cons, List.sum_cons, true_and]
    omega
  · have space := Frame.room_child (asserted_left wellFormed demanded (.inl rfl)).2
    simp only [room, List.map_cons, List.sum_cons, true_and]
    omega
  · have left := (asserted_left wellFormed demanded (.inr rfl)).2
    have first := Frame.room_child left
    have second := Frame.room_child (l := -l) (Literal.var_neg l ▸ left)
    simp only [room, List.map_cons, List.sum_cons, true_and]
    omega

/-- The steps taken and the steps that the stack has room for stay within the nodes of a binary
tree over the variables that occur. -/
theorem Reaches.steps_add_room_le {f : Formula} {s : State} (wellFormed : f.WellFormed)
    (reach : Reaches f s) : s.steps + room f s.stack ≤ 2 ^ (f.vars.card + 1) - 1 := by
  induction reach with
  | start => simp [State.start, room, Frame.room, Frame.root]
  | step reach next stepped ih =>
    have sound := reach.sound wellFormed _ (next ▸ List.mem_cons_self)
    rw [State.step_of_sound wellFormed sound] at stepped
    have spent := State.room_of_advance wellFormed (Except.ok.inj stepped)
    rw [next] at ih
    omega

private theorem Reaches.steps_lt {f : Formula} {s : State} {fr : Frame} {rest : List Frame}
    (wellFormed : f.WellFormed) (reach : Reaches f s) (next : s.stack = fr :: rest) :
    s.steps < 2 ^ (f.vars.card + 1) - 1 := by
  have total := reach.steps_add_room_le wellFormed
  have positive := fr.room_pos f
  rw [next, room, List.map_cons, List.sum_cons] at total
  omega

section Solve

variable {f : Formula} {limit : Nat} {r : Result} {sig : Signal}

private theorem solve_ends (wellFormed : f.WellFormed) (limit : Nat) :
    ∃ s out, Reaches f s ∧ Ends f limit s out ∧
      solve limit f .never = out.map fun r => (r, .never) := by
  simpa [solve, State.start] using State.run_ends wellFormed .start limit

theorem ends_of_solve (wellFormed : f.WellFormed) (solved : solve limit f .never = .ok (r, sig)) :
    sig = .never ∧ ∃ s, Reaches f s ∧ Ends f limit s (.ok r) := by
  obtain ⟨s, out, reach, ends, ran⟩ := solve_ends wellFormed limit
  rw [ran] at solved
  cases out with
  | error e => cases solved
  | ok r' =>
    cases solved
    exact ⟨rfl, s, reach, ends⟩

/-- The most steps that a search can take. -/
def stepBound (limit : Nat) (f : Formula) : Nat := min limit (2 ^ (f.vars.card + 1) - 1)

theorem steps_le_of_solve (wellFormed : f.WellFormed)
    (solved : solve limit f .never = .ok (r, sig)) : r.steps ≤ stepBound limit f := by
  obtain ⟨-, s, reach, ends⟩ := ends_of_solve wellFormed solved
  apply le_min
  · cases ends with
    | exhausted _ within => exact within
    | stopped _ reached => exact reached.le
    | solved _ within => exact within
  · have total := reach.steps_add_room_le wellFormed
    cases ends with
    | exhausted | stopped => exact (Nat.le_add_right _ _).trans total
    | solved next => exact reach.steps_lt wellFormed next

theorem overflow_of_solve {e : Fault} (wellFormed : f.WellFormed)
    (failed : solve limit f .never = .error e) :
    e = .overflow ∧ wordBound ≤ stepBound limit f + 1 := by
  obtain ⟨s, out, reach, ends, ran⟩ := solve_ends wellFormed limit
  rw [ran] at failed
  cases out with
  | ok r => cases failed
  | error e' =>
    cases failed
    cases ends with
    | overflow next reached full =>
      have left := reach.steps_lt wellFormed next
      rw [stepBound, min_eq_left (by omega)]
      exact ⟨rfl, full⟩

theorem solve_returns (wellFormed : f.WellFormed) (word : stepBound limit f + 1 < wordBound) :
    ∃ r, solve limit f .never = .ok (r, .never) := by
  cases ran : solve limit f .never with
  | error e =>
    have full := (overflow_of_solve wellFormed ran).2
    omega
  | ok p =>
    obtain ⟨r, sig⟩ := p
    obtain ⟨rfl, -⟩ := ends_of_solve wellFormed ran
    exact ⟨r, rfl⟩

theorem isModel_of_solve {m : Assignment} (wellFormed : f.WellFormed)
    (solved : solve limit f .never = .ok (r, sig)) (found : r.outcome = .satisfiable m) :
    f.IsModel m := by
  obtain ⟨-, s, reach, ends⟩ := ends_of_solve wellFormed solved
  cases ends with
  | exhausted | stopped => cases found
  | @solved fr rest next _ demanded =>
    have sound := reach.sound wellFormed fr (next ▸ List.mem_cons_self)
    have valid := fun l member => (sound.proper.occurs l member).1
    cases found
    rw [← Formula.isModel_restrictAll_iff valid (agrees_modelAsserting wellFormed sound.proper)]
    refine ⟨by simp [size_modelAsserting], fun c member => ?_⟩
    have none : (f.restrictAll fr.trail).clauses = [] := justified_of_demand demanded
    rw [none] at member
    cases member

theorem not_isModel_of_solve (wellFormed : f.WellFormed)
    (solved : solve limit f .never = .ok (r, sig)) (refuted : r.outcome = .unsatisfiable)
    (a : Assignment) : ¬ f.IsModel a := by
  intro model
  obtain ⟨-, s, reach, ends⟩ := ends_of_solve wellFormed solved
  cases ends with
  | stopped | solved => cases refuted
  | exhausted empty =>
    have one := reach.covering_eq_one wellFormed model
    simp [empty, covering] at one

theorem satisfiable_iff_of_solve {b : Bool} (wellFormed : f.WellFormed)
    (solved : solve limit f .never = .ok (r, sig)) (decided : r.outcome.verdict? = some b) :
    f.Satisfiable ↔ b = true := by
  cases found : r.outcome with
  | satisfiable m =>
    rw [found] at decided
    cases decided
    exact ⟨fun _ => rfl, fun _ => ⟨m, isModel_of_solve wellFormed solved found⟩⟩
  | unsatisfiable =>
    rw [found] at decided
    cases decided
    refine ⟨fun ⟨m, model⟩ => ?_, nofun⟩
    exact absurd model (not_isModel_of_solve wellFormed solved found m)
  | inconclusive =>
    rw [found] at decided
    cases decided

/-- With a limit of at least the nodes of a binary tree over the variables that occur, a search
ends with an answer, and its steps stay within that number. -/
theorem solve_decides (wellFormed : f.WellFormed) (enough : 2 ^ (f.vars.card + 1) - 1 ≤ limit) :
    ∃ r, solve limit f .never = .ok (r, .never) ∧ r.outcome ≠ .inconclusive ∧
      r.steps ≤ 2 ^ (f.vars.card + 1) - 1 := by
  obtain ⟨s, out, reach, ends, ran⟩ := solve_ends wellFormed limit
  rw [ran]
  cases ends with
  | exhausted empty =>
    have total := reach.steps_add_room_le wellFormed
    exact ⟨_, rfl, Outcome.noConfusion, (Nat.le_add_right _ _).trans total⟩
  | solved next =>
    exact ⟨_, rfl, Outcome.noConfusion, reach.steps_lt wellFormed next⟩
  | stopped next reached =>
    have left := reach.steps_lt wellFormed next
    omega
  | overflow next reached =>
    have left := reach.steps_lt wellFormed next
    omega

end Solve

/-- The search for a model of a well-formed formula returns unless its steps can fill the word. A
model that it reports covers exactly the variables of the formula and makes it true; when it
reports that there is none, every assignment to the variables makes the formula false. -/
theorem solve_verdict {f : Formula} (wellFormed : f.WellFormed) (limit : Nat) :
    (stepBound limit f + 1 < wordBound → ∃ r, solve limit f .never = .ok (r, .never)) ∧
      ∀ r sig, solve limit f .never = .ok (r, sig) →
        (∀ m, r.outcome = .satisfiable m → m.size = f.numVars ∧ f.isSatisfiedBy m = .ok true) ∧
        (r.outcome = .unsatisfiable →
          ∀ a : Assignment, a.size = f.numVars → f.isSatisfiedBy a = .ok false) := by
  refine ⟨solve_returns wellFormed, fun r sig solved => ?_⟩
  refine ⟨fun m found => ?_, fun refuted a size => ?_⟩
  · have model := isModel_of_solve wellFormed solved found
    rw [Formula.isSatisfiedBy_of_wellFormed wellFormed model.1]
    exact ⟨model.1, congrArg Except.ok (decide_eq_true model)⟩
  · have none := not_isModel_of_solve wellFormed solved refuted a
    rw [Formula.isSatisfiedBy_of_wellFormed wellFormed size]
    exact congrArg Except.ok (decide_eq_false none)

/-- The four clauses over two variables. -/
def square : Formula :=
  ⟨2, [⟨[⟨1⟩, ⟨2⟩]⟩, ⟨[⟨1⟩, ⟨-2⟩]⟩, ⟨[⟨-1⟩, ⟨2⟩]⟩, ⟨[⟨-1⟩, ⟨-2⟩]⟩]⟩

theorem solve_square : solve 7 square .never = .ok (⟨.unsatisfiable, 5, 2⟩, .never) := by
  rw [solve, State.run_of_inl rfl rfl, State.run_of_inl rfl rfl, State.run_of_inl rfl rfl,
    State.run_of_inl rfl rfl, State.run_of_inl rfl rfl, State.run_of_nil rfl]
  rfl

theorem square_verdict : square.WellFormed ∧
    ∀ a : Assignment, a.size = 2 → square.isSatisfiedBy a = .ok false := by
  have wellFormed : square.WellFormed := by decide
  exact ⟨wellFormed, ((solve_verdict wellFormed 7).2 _ _ solve_square).2 rfl⟩

/-- A step limit only cuts the search short. There is one result that every limit from its step
count on returns, and it is an answer; every lower limit gives up with exactly the steps it allows
and no more backtracks. So an answer is the same under every higher limit, and the steps reported
never exceed the limit. -/
theorem solve_ceiling {f : Formula} (wellFormed : f.WellFormed) :
    ∃ r : Result, r.outcome ≠ .inconclusive ∧
      (r.steps < wordBound → solve noLimit f .never = .ok (r, .never)) ∧
      (∀ limit, r.steps ≤ limit → solve limit f .never = .ok (r, .never)) ∧
      (∀ limit, limit < r.steps → limit + 1 < wordBound →
        ∃ b ≤ r.backtracks, solve limit f .never = .ok (⟨.inconclusive, limit, b⟩, .never)) ∧
      (∀ lower upper r', lower ≤ upper → solve lower f .never = .ok (r', .never) →
        r'.outcome ≠ .inconclusive → solve upper f .never = .ok (r', .never)) ∧
      ∀ limit r', solve limit f .never = .ok (r', .never) → r'.steps ≤ limit := by
  obtain ⟨r, solved, decided, -⟩ := solve_decides wellFormed le_rfl
  have settles (limit : Nat) := State.run_of_decided solved decided limit
  simp only [State.start, Nat.zero_add] at settles
  have stable : ∀ limit, r.steps ≤ limit → solve limit f .never = .ok (r, .never) :=
    fun limit => (settles limit).1
  refine ⟨r, decided, fun word => stable _ (Nat.le_sub_one_of_lt word), stable,
    fun limit => (settles limit).2, ?_,
    fun limit r' found => (steps_le_of_solve wellFormed found).trans (min_le_left _ _)⟩
  intro lower upper r' le early answered
  have within := (steps_le_of_solve wellFormed early).trans (min_le_left _ _)
  have later := (State.run_of_decided early answered upper).1
  simp only [State.start, Nat.zero_add] at later
  exact later (within.trans le)

theorem square_ceiling : square.WellFormed ∧
    solve noLimit square .never = .ok (⟨.unsatisfiable, 5, 2⟩, .never) := by
  have wellFormed : square.WellFormed := by decide
  obtain ⟨r, -, -, -, -, upward, -⟩ := solve_ceiling wellFormed
  exact ⟨wellFormed, upward 7 noLimit _ (by decide) solve_square Outcome.noConfusion⟩

end SatLab.Search
