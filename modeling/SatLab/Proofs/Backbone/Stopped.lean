import SatLab.Proofs.Backbone.Pruning
/-!
A pruning under a stop signal. It looks at the signal once behind all it does, so that a first
search that was cut short is told from one that hit its limit only there. Whatever fails before
then fails without a signal too.
-/

set_option autoImplicit false
set_option relaxedAutoImplicit false

namespace SatLab.Backbone

open SatLab.Task

/-- What a pruning does behind its first search: the guess and the search under it. -/
def PruneConfig.secondSearch (c : PruneConfig) (f : Formula) :
    Task Trial.Error (List Literal × Search.Result) := do
  let run ← c.toInstance.anneal f c.anneal 0
  let ls ← Trial.sound (guess run c.frozenFraction)
  let reduced ← Trial.sound (f.reduceAll ls)
  let cut ← Trial.solve c.stepLimit reduced
  Task.check .cancelled
  return (ls, cut)

private theorem prune_eq_bind (c : PruneConfig) :
    prune c = Task.lift (Trial.checkFrozenFraction c.frozenFraction) >>= fun _ =>
      Task.lift c.toInstance.formula >>= fun f => Trial.solve c.stepLimit f >>= fun full =>
        (fun found => c.report f found.1 full found.2) <$> c.secondSearch f := by
  simp only [PruneConfig.secondSearch, map_bind, map_pure]
  rfl

private theorem secondSearch_steady (c : PruneConfig) (f : Formula) :
    (c.secondSearch f).Steady (.core .cancelled) := by
  refine Trial.Instance.anneal_steady.bind fun run => (steady_lift _).bind fun ls => ?_
  refine (steady_lift _).bind fun reduced => ?_
  exact (Trial.solve_yielding _ _).bind_check fun cut => steady_pure _

private theorem secondSearch_refuses (c : PruneConfig) (f : Formula) :
    (c.secondSearch f).Refuses := by
  have lifted {α : Type} (x : Except Trial.Error α) : (Task.lift x).Steady .cancelled :=
    steady_lift x
  refine Trial.Instance.anneal_steady.bind_refuses fun run => ?_
  refine (lifted _).bind_refuses fun ls => (lifted _).bind_refuses fun reduced => ?_
  exact (Trial.solve_yielding _ _).bind_refuses fun cut => refuses_check.bind _

/-- A signal cuts a pruning short or leaves its answer as it is, unless the count of steps of the
first search overflows without a signal. -/
theorem prune_firm (c : PruneConfig) :
    (prune c).Firm (.core .cancelled) (.ofFault .overflow) := by
  rw [prune_eq_bind]
  apply Firm.bind (steady_lift _)
  intro _ _
  apply Firm.bind (steady_lift _)
  intro f made
  have drawn : c.toInstance.formula = .ok f := (lift_eq_ok.mp made).1
  have wellFormed : f.WellFormed := (Trial.Instance.drawn_of_formula drawn).wellFormed
  have overflows : ∀ e, Trial.solve c.stepLimit f .never = .error e →
      e = .ofFault .overflow := by
    intro e failed
    rw [Trial.solve, mapError] at failed
    cases searched : Search.solve c.stepLimit f .never with
    | ok p =>
      rw [searched] at failed
      cases failed
    | error fault =>
      obtain ⟨rfl, -⟩ := Search.overflow_of_solve wellFormed searched
      rw [searched] at failed
      exact (Except.error.inj failed).symm
  exact (Trial.solve_yielding _ _).firm overflows (secondSearch_steady c f)
    (secondSearch_refuses c f)

end SatLab.Backbone
