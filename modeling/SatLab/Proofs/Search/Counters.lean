import SatLab.Proofs.Search.Verdict
/-!
The counters of the search beside the tree that it goes through. Every frame examined is a step and
every conflict a backtrack. A conflict takes a frame off the stack, a branching puts one more on it,
and a propagated unit clause leaves its height as it is, so a search that empties the stack has met
one conflict more than branchings.
-/

set_option autoImplicit false
set_option relaxedAutoImplicit false

namespace SatLab.Search

/-- What the frames show that a run of at most `budget` steps examines, in order. -/
def State.findings (n : Nat) : Nat → State → List Expansion
  | 0, _ => []
  | budget + 1, s =>
    match s.stack with
    | [] => []
    | fr :: rest =>
      match fr.expand n with
      | .error _ => []
      | .ok found =>
        found :: match s.step n fr rest with
          | .ok (.inl next) => next.findings n budget
          | _ => []

/-- What the frames show that a search within a step limit examines, in order. -/
def findings (limit : Nat) (f : Formula) : List Expansion :=
  (State.start f).findings f.numVars limit

section Findings

variable {n budget : Nat} {s s' : State} {fr : Frame} {rest : List Frame} {found : Expansion}

private theorem State.findings_of_nil (empty : s.stack = []) : s.findings n budget = [] := by
  cases budget with
  | zero => rfl
  | succ budget => simp only [findings, empty]

private theorem State.findings_of_inl (next : s.stack = fr :: rest)
    (expanded : fr.expand n = .ok found) (stepped : s.step n fr rest = .ok (.inl s')) :
    s.findings n (budget + 1) = found :: s'.findings n budget := by
  simp only [findings, next, expanded, stepped]

private theorem State.findings_of_inr {r : Result} (next : s.stack = fr :: rest)
    (expanded : fr.expand n = .ok found) (stepped : s.step n fr rest = .ok (.inr r)) :
    s.findings n (budget + 1) = [found] := by
  simp only [findings, next, expanded, stepped]

end Findings

theorem Frame.Sound.step_cases {f : Formula} {fr : Frame} (wellFormed : f.WellFormed)
    (sound : fr.Sound f) (s : State) (rest : List Frame) :
    (∃ a, fr.expand f.numVars = .ok (.model a) ∧
        s.step f.numVars fr rest = .ok (.inr ⟨.satisfiable a, s.steps + 1, s.backtracks⟩)) ∨
      (fr.expand f.numVars = .ok .conflict ∧
        s.step f.numVars fr rest = .ok (.inl ⟨rest, s.steps + 1, s.backtracks + 1⟩)) ∨
      (∃ child, fr.expand f.numVars = .ok (.next [child]) ∧
        s.step f.numVars fr rest = .ok (.inl ⟨child :: rest, s.steps + 1, s.backtracks⟩)) ∨
      ∃ first second, fr.expand f.numVars = .ok (.next [first, second]) ∧
        s.step f.numVars fr rest =
          .ok (.inl ⟨first :: second :: rest, s.steps + 1, s.backtracks⟩) := by
  have expanded := sound.expand_eq wellFormed
  rw [State.step, expanded, ok_bind]
  cases demand (f.restrictAll fr.trail) with
  | solved => exact .inl ⟨_, rfl, rfl⟩
  | falsified => exact .inr (.inl ⟨rfl, rfl⟩)
  | unit l => exact .inr (.inr (.inl ⟨_, rfl, rfl⟩))
  | split l => exact .inr (.inr (.inr ⟨_, _, rfl, rfl⟩))

private theorem Reaches.expand_ne {f : Formula} {s : State} {fr : Frame} (wellFormed : f.WellFormed)
    (reach : Reaches f s) (member : fr ∈ s.stack) : fr.expand f.numVars ≠ .ok (.next []) := by
  intro dropped
  rw [(reach.sound wellFormed fr member).expand_eq wellFormed] at dropped
  cases demanded : demand (f.restrictAll fr.trail) <;> simp [demanded] at dropped

/-- One frame takes the place of the frame examined: a unit clause was propagated. -/
def Expansion.propagates : Expansion → Bool
  | .next [_] => true
  | _ => false

def Expansion.branches : Expansion → Bool
  | .next [_, _] => true
  | _ => false

def conflicts (found : List Expansion) : Nat := found.count .conflict

def propagations (found : List Expansion) : Nat := found.countP Expansion.propagates

def branchings (found : List Expansion) : Nat := found.countP Expansion.branches

/-- The balance of a run from a stack of a given height. A search is exhausted when as many frames
have been refuted as were on the stack and were put on it by branchings. -/
def Balanced (height : Nat) (found : List Expansion) : Outcome → Prop
  | .satisfiable _ =>
    found.length = conflicts found + propagations found + branchings found + 1 ∧
      conflicts found < height + branchings found
  | .unsatisfiable =>
    found.length = conflicts found + propagations found + branchings found ∧
      conflicts found = height + branchings found
  | .inconclusive =>
    found.length = conflicts found + propagations found + branchings found ∧
      conflicts found < height + branchings found

section Balance

variable {height : Nat} {found : List Expansion} {o : Outcome}

theorem Balanced.exhausted : Balanced 0 [] .unsatisfiable := ⟨rfl, rfl⟩

theorem Balanced.stopped (height : Nat) : Balanced (height + 1) [] .inconclusive :=
  ⟨rfl, Nat.succ_pos height⟩

theorem Balanced.model (height : Nat) (a : Assignment) :
    Balanced (height + 1) [.model a] (.satisfiable a) := ⟨rfl, Nat.succ_pos height⟩

theorem Balanced.conflict (balanced : Balanced height found o) :
    Balanced (height + 1) (.conflict :: found) o := by
  have more : conflicts (.conflict :: found) = conflicts found + 1 := List.count_cons_self
  have units : propagations (.conflict :: found) = propagations found := rfl
  have splits : branchings (.conflict :: found) = branchings found := rfl
  cases o <;> simp only [Balanced, more, units, splits, List.length_cons] at balanced ⊢ <;> omega

theorem Balanced.unit (balanced : Balanced (height + 1) found o) (child : Frame) :
    Balanced (height + 1) (.next [child] :: found) o := by
  have refuted : conflicts (.next [child] :: found) = conflicts found := rfl
  have more : propagations (.next [child] :: found) = propagations found + 1 :=
    List.countP_cons_of_pos rfl
  have splits : branchings (.next [child] :: found) = branchings found := rfl
  cases o <;> simp only [Balanced, refuted, more, splits, List.length_cons] at balanced ⊢ <;> omega

theorem Balanced.split (balanced : Balanced (height + 2) found o) (first second : Frame) :
    Balanced (height + 1) (.next [first, second] :: found) o := by
  have refuted : conflicts (.next [first, second] :: found) = conflicts found := rfl
  have units : propagations (.next [first, second] :: found) = propagations found := rfl
  have more : branchings (.next [first, second] :: found) = branchings found + 1 :=
    List.countP_cons_of_pos rfl
  cases o <;> simp only [Balanced, refuted, units, more, List.length_cons] at balanced ⊢ <;> omega

end Balance

/-- The books of a run from a state: every frame examined is a step, every conflict a backtrack. -/
structure Accounts (s : State) (found : List Expansion) (r : Result) : Prop where
  steps : r.steps = s.steps + found.length
  backtracks : r.backtracks = s.backtracks + conflicts found
  balanced : Balanced s.stack.length found r.outcome

theorem Accounts.cons {s s' : State} {shown : Expansion} {found : List Expansion} {r : Result}
    (later : Accounts s' found r) (steps : s'.steps = s.steps + 1)
    (backtracks : s'.backtracks = s.backtracks + conflicts [shown])
    (balanced : Balanced s.stack.length (shown :: found) r.outcome) :
    Accounts s (shown :: found) r where
  steps := by
    rw [later.steps, steps, List.length_cons]
    omega
  backtracks := by
    have split : conflicts ([shown] ++ found) = conflicts [shown] + conflicts found :=
      List.count_append
    rw [later.backtracks, backtracks, Nat.add_assoc, ← split, List.singleton_append]
  balanced := balanced

/-- Examining a sound frame finds a model, or leaves a state whose books, with what the frame
shows put in front, are those of the state before. -/
private theorem Frame.Sound.step_accounts {f : Formula} {s : State} {fr : Frame} {rest : List Frame}
    (wellFormed : f.WellFormed) (sound : fr.Sound f) (next : s.stack = fr :: rest) :
    (∃ a, fr.expand f.numVars = .ok (.model a) ∧
        s.step f.numVars fr rest = .ok (.inr ⟨.satisfiable a, s.steps + 1, s.backtracks⟩)) ∨
      ∃ shown s', fr.expand f.numVars = .ok shown ∧ s.step f.numVars fr rest = .ok (.inl s') ∧
        ∀ {found : List Expansion} {r : Result}, Accounts s' found r →
          Accounts s (shown :: found) r := by
  rcases sound.step_cases wellFormed s rest with
    model | ⟨expanded, stepped⟩ | ⟨child, expanded, stepped⟩ | ⟨first, second, expanded, stepped⟩
  · exact .inl model
  · refine .inr ⟨_, _, expanded, stepped, fun later => ?_⟩
    exact later.cons rfl rfl (next ▸ later.balanced.conflict)
  · refine .inr ⟨_, _, expanded, stepped, fun later => ?_⟩
    exact later.cons rfl rfl (next ▸ later.balanced.unit child)
  · refine .inr ⟨_, _, expanded, stepped, fun later => ?_⟩
    exact later.cons rfl rfl (next ▸ later.balanced.split first second)

private theorem accounts_of_nil {n budget : Nat} {s : State} {r : Result} {sig : Signal}
    (empty : s.stack = []) (ran : s.run n budget .never = .ok (r, sig)) :
    Accounts s (s.findings n budget) r := by
  rw [State.run_of_nil empty] at ran
  cases ran
  rw [State.findings_of_nil empty]
  exact ⟨rfl, rfl, empty ▸ Balanced.exhausted⟩

theorem Reaches.accounts {f : Formula} {s : State} {budget : Nat} {r : Result} {sig : Signal}
    (wellFormed : f.WellFormed) (reach : Reaches f s)
    (ran : s.run f.numVars budget .never = .ok (r, sig)) :
    Accounts s (s.findings f.numVars budget) r := by
  -- The books of the rest of the run are those of the next state, under one step less.
  induction budget generalizing s with
  | zero =>
    cases stack : s.stack with
    | nil => exact accounts_of_nil stack ran
    | cons fr rest =>
      rw [State.run_zero stack] at ran
      split at ran
      · cases ran
      · cases ran
        exact ⟨rfl, rfl, stack ▸ Balanced.stopped rest.length⟩
  | succ budget ih =>
    cases stack : s.stack with
    | nil => exact accounts_of_nil stack ran
    | cons fr rest =>
      have sound := reach.sound wellFormed fr (stack ▸ List.mem_cons_self)
      rcases sound.step_accounts wellFormed stack with
        ⟨a, expanded, stepped⟩ | ⟨shown, s', expanded, stepped, carries⟩
      · rw [State.run_of_inr stack stepped] at ran
        cases ran
        rw [State.findings_of_inr stack expanded stepped]
        exact ⟨rfl, rfl, stack ▸ Balanced.model rest.length a⟩
      · rw [State.run_of_inl stack stepped] at ran
        rw [State.findings_of_inl stack expanded stepped]
        exact carries (ih (reach.step stack stepped) ran)

/-- The counters of a search agree with the tree that it goes through. Every frame is examined in
one step, and none is dropped for want of a literal to branch on. A search that finds no model takes
two steps for each backtrack, less one, and a further step for each unit clause it propagates; one
that ends otherwise has taken at least two steps for each backtrack. -/
theorem solve_counters {f : Formula} (wellFormed : f.WellFormed) :
    (∀ s, Reaches f s → ∀ fr ∈ s.stack, fr.expand f.numVars ≠ .ok (.next [])) ∧
      ∀ limit r sig, solve limit f .never = .ok (r, sig) →
        r.steps = (findings limit f).length ∧ r.backtracks = conflicts (findings limit f) ∧
        (r.outcome = .unsatisfiable → 1 ≤ r.backtracks ∧
          r.steps = 2 * r.backtracks - 1 + propagations (findings limit f)) ∧
        (∀ m, r.outcome = .satisfiable m → 2 * r.backtracks + 1 ≤ r.steps) ∧
        (r.outcome = .inconclusive → 2 * r.backtracks ≤ r.steps) := by
  refine ⟨fun s reach fr member => reach.expand_ne wellFormed member, ?_⟩
  intro limit r sig solved
  have books : Accounts (.start f) (findings limit f) r :=
    Reaches.start.accounts wellFormed solved
  obtain ⟨steps, backtracks, balanced⟩ := books
  simp only [State.start, Nat.zero_add, List.length_singleton] at steps backtracks balanced
  refine ⟨steps, backtracks, fun refuted => ?_, fun m satisfied => ?_, fun undecided => ?_⟩
  · rw [refuted] at balanced
    obtain ⟨kinds, height⟩ := balanced
    omega
  · rw [satisfied] at balanced
    obtain ⟨kinds, height⟩ := balanced
    omega
  · rw [undecided] at balanced
    obtain ⟨kinds, height⟩ := balanced
    omega

/-- Two unit clauses are propagated in the search over the four clauses. -/
theorem square_counters : square.WellFormed ∧
    solve 7 square .never = .ok (⟨.unsatisfiable, 5, 2⟩, .never) ∧
    propagations (findings 7 square) = 2 := by
  have wellFormed : square.WellFormed := by decide
  obtain ⟨-, -, refuted, -⟩ := (solve_counters wellFormed).2 7 _ _ solve_square
  obtain ⟨-, steps⟩ := refuted rfl
  refine ⟨wellFormed, solve_square, ?_⟩
  dsimp only at steps
  omega

end SatLab.Search
