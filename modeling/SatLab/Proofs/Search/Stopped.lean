import SatLab.Proofs.Control.Steady
import SatLab.Proofs.Search.Run
import SatLab.Search.Backbone
/-!
Searches under a stop signal. A search that the signal cuts short is undecided and leaves the signal
fired, so that the look at the signal that follows each search of a classification never takes a
search that was cut short for one that hit its limit.
-/

set_option autoImplicit false
set_option relaxedAutoImplicit false

namespace SatLab.Search

open SatLab.Task

/-- The signal cuts the search short: the result is undecided and the signal has fired. -/
def State.CutShort (n budget : Nat) (s : State) (sig : Signal) : Prop :=
  sig ≠ .never ∧ ∃ r sig', s.run n budget sig = .ok (r, sig') ∧ r.outcome = .inconclusive ∧
    sig'.isFired = true

private theorem State.run_idle (n budget : Nat) (s : State) (sig : Signal) :
    (s.CutShort n budget sig ∨ (s.run n budget).Unmoved sig) ∨
      ∃ fr rest, s.stack = fr :: rest ∧ sig.isFired = false := by
  cases stack : s.stack with
  | nil => exact .inl (.inr (.ended (run_of_nil stack _) (run_of_nil stack _) id))
  | cons fr rest =>
    cases quiet : sig.isFired with
    | true =>
      have fires : sig ≠ .never := by
        rintro rfl
        cases quiet
      exact .inl (.inl ⟨fires, _, _, run_of_fired stack quiet, rfl, Signal.isFired_next quiet⟩)
    | false => exact .inr ⟨fr, rest, rfl, rfl⟩

theorem State.run_cutShort (n budget : Nat) (s : State) (sig : Signal) :
    s.CutShort n budget sig ∨ (s.run n budget).Unmoved sig := by
  induction budget generalizing s sig with
  | zero =>
    rcases run_idle n 0 s sig with decided | ⟨fr, rest, stack, quiet⟩
    · exact decided
    · right
      by_cases full : wordBound ≤ s.steps + 1
      · exact .failed ((run_zero stack).trans (if_pos full))
          ((run_zero_of_quiet stack quiet).trans (if_pos full))
      · exact .ended ((run_zero stack).trans (if_neg full))
          ((run_zero_of_quiet stack quiet).trans (if_neg full)) (by simp [quiet])
  | succ budget ih =>
    rcases run_idle n (budget + 1) s sig with decided | ⟨fr, rest, stack, quiet⟩
    · exact decided
    · -- a quiet signal loses one poll here, and the rest of the run is that of a smaller budget
      have reached : s.run n (budget + 1) sig = _ := run_succ_of_quiet stack quiet
      have reachedQuiet : s.run n (budget + 1) .never = _ := run_succ stack
      cases stepped : s.step n fr rest with
      | error e =>
        rw [stepped, error_bind] at reached reachedQuiet
        exact .inr (.failed reachedQuiet reached)
      | ok outcome =>
        rw [stepped, ok_bind] at reached reachedQuiet
        cases outcome with
        | inr r => exact .inr (.ended reachedQuiet reached (by simp [quiet]))
        | inl s' =>
          rcases ih s' sig.next with
            ⟨fires, r, sig', given, undecided, fired⟩ | ⟨same, same'⟩ | ⟨same, same', -⟩
          · exact .inl ⟨mt (congrArg Signal.next) fires, r, sig', reached.trans given, undecided,
              fired⟩
          · exact .inr (.failed (reachedQuiet.trans same) (reached.trans same'))
          · exact .inr (.ended (reachedQuiet.trans same) (reached.trans same') (by simp [quiet]))

private theorem State.run_yielding (n budget : Nat) (s : State) : (s.run n budget).Yielding := by
  intro sig
  rcases s.run_cutShort n budget sig with ⟨fires, r, sig', given, -, fired⟩ | unmoved
  · exact .inl ⟨fires, r, sig', given, fired⟩
  · exact .inr unmoved

theorem solve_answer_eq (limit : Nat) (f : Formula) (sig : Signal) :
    (∃ r, (solve limit f).answer sig = .ok r ∧ r.outcome = .inconclusive) ∨
      (solve limit f).answer sig = (solve limit f).answer .never := by
  rcases (State.start f).run_cutShort f.numVars limit sig with
    ⟨-, r, sig', given, undecided, -⟩ | unmoved
  · refine .inl ⟨r, ?_, undecided⟩
    rw [answer, solve, given]
    rfl
  · exact .inr unmoved.answer_eq

theorem solve_yielding (limit : Nat) (f : Formula) : (solve limit f).Yielding :=
  State.run_yielding _ _ _

theorem Survey.classify_steady (limit : Nat) (f : Formula) (m : Assignment) (s : Survey)
    (var : Nat) : (s.classify limit f m var).Steady .cancelled := by
  unfold classify
  split
  · refine steady_check.bind fun _ => (steady_lift _).bind fun _ => (steady_lift _).bind fun _ => ?_
    refine ((solve_yielding _ _).mapError _).bind_check fun _ => ?_
    exact (steady_lift _).bind fun _ => (steady_lift _).bind fun _ => steady_pure _
  · exact steady_pure _

theorem backbone_steady (limit : Nat) (f : Formula) : (backbone limit f).Steady .cancelled := by
  refine steady_check.bind fun _ => ((solve_yielding _ _).mapError _).bind_check fun first => ?_
  cases first.outcome with
  | unsatisfiable | inconclusive => exact steady_pure _
  | satisfiable m =>
    refine (steady_lift _).bind fun _ => ?_
    exact (steady_foldlM (Survey.classify_steady limit f m) _).bind fun _ => steady_pure _

end SatLab.Search
