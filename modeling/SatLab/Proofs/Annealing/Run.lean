import Mathlib.Algebra.BigOperators.Group.List.Basic
import Mathlib.Algebra.Ring.Parity
import SatLab.Annealing.Run
import SatLab.Proofs.Annealing.Step
import SatLab.Proofs.Cnf.Forcing
import SatLab.Random.Script
/-!
The books of an annealing run. Whatever is drawn and decided, every move keeps the records of the
walk in agreement with its assignments, so the report of a finished run is exact.
-/

set_option autoImplicit false
set_option relaxedAutoImplicit false

namespace SatLab.Annealing

open SatLab.Random (WordSource)

namespace Walk

/-- The assignment of a walk covers the formula, and the clauses kept are those it falsifies. -/
structure Current (f : Formula) (w : Walk) : Prop where
  size : w.assignment.size = f.numVars
  unsat : f.unsatClauses w.assignment = .ok w.unsat

/-- The energies of a walk, which falsified `energy` clauses at first: the trace ends with the
present one, and the best one is the least of all. -/
structure Tracked (f : Formula) (energy : Nat) (w : Walk) : Prop where
  steps : w.steps = w.trace.length
  last : w.trace.headD energy = w.unsat.length
  best : f.countUnsat w.bestAssignment = .ok w.bestEnergy
  attained : w.bestEnergy ∈ energy :: w.trace
  least : ∀ e ∈ energy :: w.trace, w.bestEnergy ≤ e
  solved : w.bestEnergy = 0 → w.unsat.length = 0

/-- The accepted moves of a walk from `start` over `n` variables: the counts of the variables add
up to them, and a variable differs from its first value when it was turned over an odd number of
times. -/
structure Counted (n : Nat) (start : Assignment) (w : Walk) : Prop where
  counts : w.flipCounts.size = n
  moves : w.acceptedMoves = w.flipCounts.toList.sum
  moves_le : w.acceptedMoves ≤ w.steps
  parity : ∀ v, 0 < v → v ≤ n → ∃ count, w.flipCounts[v - 1]? = some count ∧
    (w.assignment.value v ≠ start.value v ↔ Odd count)

section Start

variable {f : Formula} {schedule : Schedule} {start : Assignment} {unsat : List Nat}

theorem current_start (size : start.size = f.numVars)
    (evaluated : f.unsatClauses start = .ok unsat) :
    (Walk.start schedule start unsat).Current f := ⟨size, evaluated⟩

theorem tracked_start (evaluated : f.unsatClauses start = .ok unsat) :
    (Walk.start schedule start unsat).Tracked f unsat.length where
  steps := rfl
  last := rfl
  best := Formula.countUnsat_of_unsatClauses evaluated
  attained := List.mem_cons_self
  least e member := by
    obtain rfl := List.mem_singleton.mp member
    exact le_rfl
  solved none := none

theorem counted_start : (Walk.start schedule start unsat).Counted start.size start where
  counts := by simp [Walk.start]
  moves := by simp [Walk.start]
  moves_le := le_rfl
  parity v positive bound := by
    have inside : v - 1 < start.size := by omega
    exact ⟨0, by simp [Walk.start, inside], by simp [Walk.start]⟩

end Start

section Advance

variable {f : Formula} {schedule : Schedule} {start : Assignment} {energy : Nat} {w : Walk}
  {m : Move}

theorem Current.advance (current : w.Current f) (follows : m.Follows f w.assignment w.unsat) :
    (w.advance schedule m).Current f := by
  rcases follows.cases with ⟨-, flipped, evaluated⟩ | ⟨-, same, same'⟩
  · exact ⟨(Assignment.size_of_flip flipped).trans current.size, evaluated⟩
  · refine ⟨?_, ?_⟩
    · simpa [Walk.advance, same] using current.size
    · simpa [Walk.advance, same, same'] using current.unsat

theorem Tracked.advance (tracked : w.Tracked f energy) (current : w.Current f)
    (follows : m.Follows f w.assignment w.unsat) : (w.advance schedule m).Tracked f energy := by
  have evaluated : f.countUnsat m.assignment = .ok m.energy := by
    have next : (w.advance schedule m).Current f := current.advance follows
    exact Formula.countUnsat_of_unsatClauses next.unsat
  -- A clause was drawn, so the walk had not reached zero before.
  have unsolved : w.bestEnergy ≠ 0 := by
    intro none
    obtain ⟨place, member, -⟩ := follows.drawn
    have empty := List.length_eq_zero_iff.mp (tracked.solved none)
    simp [empty] at member
  have attained := tracked.attained
  have least := tracked.least
  simp only [List.mem_cons] at attained
  simp only [List.mem_cons, forall_eq_or_imp] at least
  refine ⟨?_, rfl, ?_, ?_, ?_, ?_⟩
  · simp [Walk.advance, tracked.steps]
  · by_cases improved : m.energy < w.bestEnergy
    · simpa [Walk.advance, improved] using evaluated
    · simpa [Walk.advance, improved] using tracked.best
  · by_cases improved : m.energy < w.bestEnergy
    · simp [Walk.advance, improved]
    · simp only [Walk.advance, improved, if_false, List.mem_cons]
      exact attained.imp_right .inr
  · simp only [Walk.advance, List.mem_cons, forall_eq_or_imp]
    by_cases improved : m.energy < w.bestEnergy
    · rw [if_pos improved]
      refine ⟨by omega, le_rfl, fun e member => ?_⟩
      exact improved.le.trans (least.2 e member)
    · rw [if_neg improved]
      exact ⟨least.1, Nat.not_lt.mp improved, least.2⟩
  · intro none
    by_cases improved : m.energy < w.bestEnergy
    · simp only [Walk.advance, improved, if_true] at none
      exact none
    · simp only [Walk.advance, improved, if_false] at none
      exact absurd none unsolved

private theorem sum_modify_succ {counts : List Nat} {i : Nat} (inside : i < counts.length) :
    (counts.modify i (· + 1)).sum = counts.sum + 1 := by
  induction counts generalizing i with
  | nil => simp at inside
  | cons count counts ih =>
    cases i with
    | zero =>
      simp only [List.modify_zero_cons, List.sum_cons]
      omega
    | succ i =>
      have rest := ih (i := i) (by simpa using inside)
      simp only [List.modify_succ_cons, List.sum_cons, rest]
      omega

private theorem differs_of_flip {a a' : Assignment} {v : Nat} (flipped : a.flip v = .ok a')
    (size : a.size = start.size) : a'.value v ≠ start.value v ↔ a.value v = start.value v := by
  obtain ⟨positive, bound⟩ := Assignment.range_of_flip flipped
  have bound' : v ≤ start.values.size := bound.trans size.le
  obtain ⟨b, value⟩ := Assignment.exists_value positive bound
  obtain ⟨c, first⟩ := Assignment.exists_value positive bound'
  rw [Assignment.value_of_flip flipped, if_pos rfl, value, first]
  cases b <;> cases c <;> simp [Except.map]

theorem Counted.advance (counted : w.Counted start.size start)
    (size : w.assignment.size = start.size) (follows : m.Follows f w.assignment w.unsat) :
    (w.advance schedule m).Counted start.size start := by
  have within := counted.moves_le
  rcases follows.cases with ⟨taken, flipped, -⟩ | ⟨left, same, -⟩
  · obtain ⟨positive, bound⟩ := Assignment.range_of_flip flipped
    have inside : m.flippedVar - 1 < w.flipCounts.size := by
      rw [counted.counts, ← size, Assignment.size]
      omega
    refine ⟨?_, ?_, ?_, fun v positive' bound' => ?_⟩
    · simpa [Walk.advance, taken] using counted.counts
    · simp only [Walk.advance, taken, if_true, Array.toList_modify]
      rw [sum_modify_succ (by simpa using inside), counted.moves]
    · simp only [Walk.advance, taken, if_true]
      omega
    · obtain ⟨count, entry, differs⟩ := counted.parity v positive' bound'
      by_cases here : v = m.flippedVar
      · subst here
        refine ⟨count + 1, ?_, ?_⟩
        · simp [Walk.advance, taken, Array.getElem?_modify, entry]
        · rw [Nat.odd_add_one, ← differs, not_not]
          exact differs_of_flip flipped size
      · have apart : m.flippedVar - 1 ≠ v - 1 := by omega
        refine ⟨count, ?_, ?_⟩
        · simp [Walk.advance, taken, Array.getElem?_modify, apart, entry]
        · simp only [Walk.advance, Assignment.value_of_flip flipped, if_neg here]
          exact differs
  · refine ⟨?_, ?_, ?_, ?_⟩
    · simpa [Walk.advance, left] using counted.counts
    · simpa [Walk.advance, left] using counted.moves
    · simp only [Walk.advance, left, Bool.false_eq_true, if_false]
      omega
    · simpa [Walk.advance, left, same] using counted.parity

end Advance

/-- What every walk from `start` keeps to, when `start` falsifies `energy` clauses. -/
structure Kept (f : Formula) (start : Assignment) (energy : Nat) (w : Walk) : Prop where
  current : w.Current f
  tracked : w.Tracked f energy
  counted : w.Counted start.size start

theorem Kept.advance {f : Formula} {schedule : Schedule} {start : Assignment} {energy : Nat}
    {w : Walk} {m : Move} (size : start.size = f.numVars) (kept : w.Kept f start energy)
    (follows : m.Follows f w.assignment w.unsat) :
    (w.advance schedule m).Kept f start energy where
  current := kept.current.advance follows
  tracked := kept.tracked.advance kept.current follows
  counted := kept.counted.advance (kept.current.size.trans size.symm) follows

section Extend

variable {σ : Type} [WordSource σ] {f : Formula} {schedule : Schedule} {budget : Nat}
  {w w' : Walk} {s s' : σ} {sig sig' : Signal}

private theorem extend_succ :
    extend f schedule (budget + 1) w s sig =
      if sig.isFired then .error .cancelled
      else match step f w.assignment w.unsat w.temperature schedule.acceptance s with
        | (.error e, _) => .error e
        | (.ok .alreadySatisfied, s₁) => .ok ((w, s₁), sig.next)
        | (.ok (.moved m), s₁) => extend f schedule budget (w.advance schedule m) s₁ sig.next := by
  rw [extend]
  dsimp only
  rw [Task.bind_apply, Task.check_apply]
  cases sig.isFired with
  | true => rfl
  | false =>
    rcases step f w.assignment w.unsat w.temperature schedule.acceptance s with
      ⟨e | outcome, s₁⟩
    · rfl
    · cases outcome <;> rfl

theorem extend_cases
    (ran : extend f schedule (budget + 1) w s sig = .ok ((w', s'), sig')) :
    w' = w ∧ step f w.assignment w.unsat w.temperature schedule.acceptance s =
        (.ok .alreadySatisfied, s') ∨
      ∃ m s₁, step f w.assignment w.unsat w.temperature schedule.acceptance s =
          (.ok (.moved m), s₁) ∧
        extend f schedule budget (w.advance schedule m) s₁ sig.next = .ok ((w', s'), sig') := by
  rw [extend_succ] at ran
  split at ran
  · cases ran
  · split at ran
    · cases ran
    · next s₁ stepped =>
      cases ran
      exact .inl ⟨rfl, stepped⟩
    · next m s₁ stepped => exact .inr ⟨m, s₁, stepped, ran⟩

theorem extend_induction {P : Walk → Prop}
    (preserved : ∀ w m, P w → m.Follows f w.assignment w.unsat → P (w.advance schedule m))
    (holds : P w) (ran : extend f schedule budget w s sig = .ok ((w', s'), sig')) :
    P w' ∧ w'.steps ≤ w.steps + budget := by
  induction budget generalizing w s sig with
  | zero =>
    cases ran
    exact ⟨holds, le_rfl⟩
  | succ budget ih =>
    rcases extend_cases ran with ⟨rfl, -⟩ | ⟨m, s₁, stepped, later⟩
    · exact ⟨holds, Nat.le_add_right _ _⟩
    · obtain ⟨kept, within⟩ := ih (preserved w m holds (follows_of_step stepped)) later
      refine ⟨kept, ?_⟩
      simp only [advance] at within
      omega

theorem extend_returns (wellFormed : f.WellFormed) (current : w.Current f) (budget : Nat) (s : σ) :
    ∃ w' s', extend f schedule budget w s .never = .ok ((w', s'), .never) := by
  induction budget generalizing w s with
  | zero => exact ⟨w, s, rfl⟩
  | succ budget ih =>
    have evaluated := Formula.unsatClauses_of_wellFormed wellFormed current.size
    have falsified : f.falsified w.assignment = w.unsat :=
      Except.ok.inj (evaluated.symm.trans current.unsat)
    obtain ⟨outcome, s₁, stepped⟩ :=
      step_returns wellFormed current.size w.temperature schedule.acceptance s
    rw [falsified] at stepped
    rw [extend_succ, stepped]
    rcases step_cases stepped with rfl | ⟨m, rfl, follows⟩
    · exact ⟨w, s₁, rfl⟩
    · exact ih (current.advance follows) s₁

end Extend

end Walk

/-- The report of a run from `start`, which falsifies `energy` clauses, says what happened. -/
structure Run.Exact (f : Formula) (schedule : Schedule) (start : Assignment) (energy : Nat)
    (r : Run) : Prop where
  steps : r.steps = r.energyTrace.length
  steps_le : r.steps ≤ schedule.maxSteps
  size : r.assignment.size = f.numVars
  final : f.countUnsat r.assignment = .ok r.finalEnergy
  last : r.energyTrace.getLastD energy = r.finalEnergy
  best : f.countUnsat r.bestAssignment = .ok r.bestEnergy
  least : (energy :: r.energyTrace).min? = some r.bestEnergy
  solved : r.bestEnergy = 0 ↔ r.finalEnergy = 0
  counts : r.flipCounts.size = f.numVars
  moves : r.acceptedMoves = r.flipCounts.toList.sum
  moves_le : r.acceptedMoves ≤ r.steps
  parity : ∀ v, 0 < v → v ≤ f.numVars → ∃ count, r.flipCounts[v - 1]? = some count ∧
    (r.assignment.value v ≠ start.value v ↔ Odd count)

theorem Walk.Kept.exact {f : Formula} {schedule : Schedule} {start : Assignment} {energy : Nat}
    {w : Walk} (size : start.size = f.numVars) (kept : w.Kept f start energy)
    (within : w.steps ≤ schedule.maxSteps) : w.toRun.Exact f schedule start energy where
  steps := by simpa [Walk.toRun] using kept.tracked.steps
  steps_le := within
  size := kept.current.size
  final := Formula.countUnsat_of_unsatClauses kept.current.unsat
  last := by simpa [Walk.toRun, ← List.headD_eq_head?_getD] using kept.tracked.last
  best := kept.tracked.best
  least := by
    have attained := kept.tracked.attained
    have least := kept.tracked.least
    rw [List.min?_eq_some_iff]
    constructor
    · simpa [Walk.toRun] using attained
    · intro e member
      exact least e (by simpa [Walk.toRun] using member)
  solved := by
    refine ⟨kept.tracked.solved, fun none => ?_⟩
    have final : w.trace.headD energy = 0 := kept.tracked.last.trans none
    have member : 0 ∈ energy :: w.trace := by
      rw [← final]
      cases w.trace with
      | nil => exact List.mem_cons_self
      | cons e trace => exact List.mem_cons_of_mem energy List.mem_cons_self
    exact Nat.le_zero.mp (kept.tracked.least 0 member)
  counts := kept.counted.counts.trans size
  moves := kept.counted.moves
  moves_le := kept.counted.moves_le
  parity v positive bound := kept.counted.parity v positive (size ▸ bound)

section AnnealFrom

variable {σ : Type} [WordSource σ] {f : Formula} {schedule : Schedule} {start : Assignment}
  {unsat : List Nat} {s : σ} {sig : Signal}

theorem annealFrom_eq_extend (valid : schedule.validate = .ok ()) (size : start.size = f.numVars)
    (evaluated : f.unsatClauses start = .ok unsat) :
    annealFrom f start schedule s sig =
      Walk.extend f schedule schedule.maxSteps (.start schedule start unsat) s sig >>=
        fun p => .ok ((p.1.1.toRun, p.1.2), p.2) := by
  simp [annealFrom, valid, size, evaluated, Fault.guard]

theorem walk_of_annealFrom {r : Run} {s' : σ} {sig' : Signal}
    (ran : annealFrom f start schedule s sig = .ok ((r, s'), sig')) :
    start.size = f.numVars ∧ ∃ unsat w, f.unsatClauses start = .ok unsat ∧ r = w.toRun ∧
      Walk.extend f schedule schedule.maxSteps (.start schedule start unsat) s sig =
        .ok ((w, s'), sig') := by
  unfold annealFrom at ran
  cases valid : schedule.validate with
  | error e => simp [valid] at ran
  | ok =>
    by_cases size : start.size = f.numVars
    · cases evaluated : f.unsatClauses start with
      | error e => simp [valid, size, evaluated, Fault.guard] at ran
      | ok unsat =>
        simp only [valid, Task.bind_apply, Task.lift_ok, ok_bind, size, evaluated, Fault.guard,
          ok_mapError, ne_eq, not_true_eq_false, if_false] at ran
        cases extended : Walk.extend f schedule schedule.maxSteps
            (.start schedule start unsat) s sig with
        | error e => simp [extended] at ran
        | ok p =>
          simp only [extended, ok_bind, Task.pure_apply] at ran
          cases ran
          exact ⟨size, unsat, _, rfl, rfl, extended⟩
    · simp [valid, size] at ran

/-- An annealing run from an assignment to the variables of a well-formed formula, along a valid
schedule, keeps exact books: whatever words the source hands out, whatever moves are taken and
whenever the signal fires, the report of a run that ends without an error says what happened. A run
that no signal stops does end so. -/
theorem annealFrom_exact (wellFormed : f.WellFormed) (size : start.size = f.numVars)
    (valid : schedule.validate = .ok ()) :
    ∃ energy, f.countUnsat start = .ok energy ∧
      (∀ (s : σ) (sig : Signal) (r : Run) (s' : σ) (sig' : Signal),
        annealFrom f start schedule s sig = .ok ((r, s'), sig') →
          r.Exact f schedule start energy) ∧
      ∀ s : σ, ∃ r s', annealFrom f start schedule s .never = .ok ((r, s'), .never) := by
  have evaluated := Formula.unsatClauses_of_wellFormed wellFormed size
  refine ⟨_, Formula.countUnsat_of_unsatClauses evaluated, ?_, ?_⟩
  · intro s sig r s' sig' ran
    rw [annealFrom_eq_extend valid size evaluated] at ran
    cases extended : Walk.extend f schedule schedule.maxSteps
        (.start schedule start (f.falsified start)) s sig with
    | error e => simp [extended] at ran
    | ok p =>
      obtain ⟨⟨w, s₁⟩, sig₁⟩ := p
      rw [extended, ok_bind] at ran
      cases ran
      have first : (Walk.start schedule start (f.falsified start)).Kept f start
          (f.falsified start).length :=
        ⟨Walk.current_start size evaluated, Walk.tracked_start evaluated, Walk.counted_start⟩
      obtain ⟨kept, within⟩ := Walk.extend_induction
        (fun w m kept follows => Walk.Kept.advance size kept follows) first extended
      exact kept.exact size (by simpa [Walk.start] using within)
  · intro s
    have current : (Walk.start schedule start (f.falsified start)).Current f :=
      Walk.current_start size evaluated
    obtain ⟨w, s', extended⟩ := Walk.extend_returns wellFormed current schedule.maxSteps s
    refine ⟨w.toRun, s', ?_⟩
    rw [annealFrom_eq_extend valid size evaluated, extended, ok_bind]

end AnnealFrom

/-- A variable that has to be true, although two clauses are lost with it at first. -/
def fan : Formula := ⟨3, [⟨[⟨1⟩]⟩, ⟨[⟨-1⟩, ⟨2⟩]⟩, ⟨[⟨-1⟩, ⟨3⟩]⟩]⟩

/-- Nine steps at most, with an even chance for a move that does not lower the energy. -/
def coinSchedule : Schedule := { maxSteps := 9, acceptance := .lenient 0.5 }

/-- Words that refuse the first move, take and undo the second one and then solve the fan. -/
def fanWords : Random.Script :=
  ⟨#[0, 0, 0, 0xF0000000, 0, 0, 0, 0x10000000, 0, 0, 0, 0, 0, 0x10000000, 0, 0xC0000000, 0,
    0xC0000000], by decide, 0⟩

/-- A run with a refused move, two losses and a variable turned over three times. -/
theorem fan_annealed : fan.WellFormed ∧ coinSchedule.validate = .ok () ∧ ∃ r s',
    annealFrom fan ⟨#[false, false, false]⟩ coinSchedule fanWords .never = .ok ((r, s'), .never) ∧
      r.energyTrace = [1, 2, 1, 2, 1, 0] ∧ r.flipCounts = #[3, 1, 1] ∧
      r.Exact fan coinSchedule ⟨#[false, false, false]⟩ 1 := by
  have wellFormed : fan.WellFormed := by decide
  have valid : coinSchedule.validate = .ok () := rfl
  have size : Assignment.size ⟨#[false, false, false]⟩ = fan.numVars := rfl
  obtain ⟨energy, first, exact, returns⟩ :=
    annealFrom_exact (σ := Random.Script) wellFormed size valid
  obtain ⟨r, s', ran⟩ := returns fanWords
  have observed : (annealFrom fan ⟨#[false, false, false]⟩ coinSchedule fanWords
      .never).toOption.map (fun p => (p.1.1.energyTrace, p.1.1.flipCounts)) =
        some ([1, 2, 1, 2, 1, 0], #[3, 1, 1]) := by
    decide +kernel
  rw [ran] at observed
  obtain ⟨trace, counts⟩ := Prod.mk.inj (Option.some.inj observed)
  have one : energy = 1 := Except.ok.inj first.symm
  subst one
  exact ⟨wellFormed, valid, r, s', ran, trace, counts, exact fanWords .never r s' .never ran⟩

end SatLab.Annealing
