import SatLab.Proofs.Annealing.Report
import SatLab.Proofs.Cnf.Uniform
import SatLab.Proofs.Trial.Stopped
/-!
The parts of an experiment that no signal stops. Its formula is a drawn one, and its anneals and
exact searches end as they do outside an experiment.
-/

set_option autoImplicit false
set_option relaxedAutoImplicit false

namespace SatLab.Trial

theorem sound_eq_ok {α : Type} {x : Except Fault α} {s : Signal} {p : α × Signal} :
    sound x s = .ok p ↔ x = .ok p.1 ∧ p.2 = s := by
  rw [sound, Task.lift_eq_ok, mapError_ok_iff]

theorem solve_eq_ok {limit : Nat} {f : Formula} {s : Signal} {p : Search.Result × Signal} :
    solve limit f s = .ok p ↔ Search.solve limit f s = .ok p :=
  Task.mapError_eq_ok

namespace Instance

variable {i : Instance} {f : Formula} {schedule : Annealing.Schedule} {stream : Uniform.Seed}
  {r : Annealing.Run} {sig sig' : Signal}

theorem drawn_of_formula (made : i.formula = .ok f) :
    Uniform.Drawn i.n (Uniform.clauseCount i.n i.alpha) f :=
  Uniform.drawn_of_ofSeed (mapError_ok_iff.mp made)

theorem formula_returns (i : Instance) (enough : 3 ≤ i.n) (small : i.n ≤ maxVar)
    (finite : i.alpha.isFinite = true) (nonnegative : ¬ i.alpha < 0.0) :
    ∃ f, i.formula = .ok f := by
  obtain ⟨f, drawn⟩ : ∃ f, Uniform.ofSeed i.n i.alpha i.seed = .ok f :=
    Uniform.ofSeed_returns enough small finite nonnegative
  exact ⟨f, mapError_ok_iff.mpr drawn⟩

theorem anneal_eq_ok : i.anneal f schedule stream sig = .ok (r, sig') ↔
    ∃ s, Annealing.anneal f schedule (i.searchSource stream) sig = .ok ((r, s), sig') := by
  rw [anneal, Task.mapError_eq_ok, Task.bind_eq_ok]
  constructor
  · rintro ⟨⟨r, s⟩, sig', ran, given⟩
    cases given
    exact ⟨s, ran⟩
  · rintro ⟨s, ran⟩
    exact ⟨_, _, ran, rfl⟩

/-- The anneal of a formula covers its variables and knows how many clauses its best assignment
leaves unsatisfied. -/
theorem report_of_anneal (wellFormed : f.WellFormed)
    (ran : i.anneal f schedule stream sig = .ok (r, sig')) :
    r.flipCounts.size = f.numVars ∧ r.bestAssignment.size = f.numVars ∧
      f.countUnsat r.bestAssignment = .ok r.bestEnergy := by
  obtain ⟨s, ran⟩ := anneal_eq_ok.mp ran
  exact Annealing.report_of_anneal wellFormed ran

theorem anneal_returns (i : Instance) (wellFormed : f.WellFormed)
    (valid : schedule.validate = .ok ()) (stream : Uniform.Seed) :
    ∃ r, i.anneal f schedule stream .never = .ok (r, .never) := by
  obtain ⟨r, s, ran⟩ := Annealing.anneal_returns wellFormed valid (i.searchSource stream)
  exact ⟨r, anneal_eq_ok.mpr ⟨s, ran⟩⟩

end Instance

end SatLab.Trial
