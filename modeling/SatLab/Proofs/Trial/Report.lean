import SatLab.Proofs.Trial.Instance
/-!
What an experiment reports of its instances, and which searches on them it reports. It repeats the
size and the clause ratio that it was given; an examination of the rigidity counts the variables
instead, and a trend, which has many sizes, repeats the clause ratio alone.
-/

set_option autoImplicit false
set_option relaxedAutoImplicit false

namespace SatLab

open SatLab.Task

namespace Landscape

theorem energyTail_names (c : TailConfig) :
    (energyTail c).Ensures fun r => r.n = c.n ∧ r.alpha = c.alpha :=
  ensures_guard <| ensures_bind fun _ _ _ _ => ensures_bind fun _ _ _ _ =>
    ensures_bind fun _ _ _ _ => ensures_pure ⟨rfl, rfl⟩

theorem hysteresis_names (c : HysteresisConfig) :
    (hysteresis c).Ensures fun r => r.n = c.n ∧ r.alpha = c.alpha :=
  ensures_guard <| ensures_bind fun _ _ _ _ => ensures_bind fun _ _ _ _ =>
    ensures_bind fun _ _ _ _ => ensures_pure ⟨rfl, rfl⟩

theorem hysteresis_deep (c : HysteresisConfig) :
    (hysteresis c).Ensures fun r => r.isDeepScan = Landscape.isDeepScan c.slowRate :=
  ensures_guard <| ensures_bind fun _ _ _ _ => ensures_bind fun _ _ _ _ =>
    ensures_bind fun _ _ _ _ => ensures_pure rfl

theorem parts_of_hysteresis {c : HysteresisConfig} {r : HysteresisResult} {sig sig' : Signal}
    (ran : hysteresis c sig = .ok (r, sig')) :
    ∃ f fast slow sig₁, (⟨c.n, c.alpha, c.seed⟩ : Trial.Instance).formula = .ok f ∧
      Trial.Instance.anneal ⟨c.n, c.alpha, c.seed⟩ f
        { maxSteps := c.maxSteps, coolingRate := c.fastRate } 0 sig = .ok (fast, sig₁) ∧
      Trial.Instance.anneal ⟨c.n, c.alpha, c.seed⟩ f
        { maxSteps := c.slowSteps, coolingRate := c.slowRate } 1 sig₁ = .ok (slow, sig') ∧
      r.fast = .ofRun c.fastRate fast ∧ r.slow = .ofRun c.slowRate slow := by
  unfold hysteresis at ran
  split at ran
  · cases ran
  · obtain ⟨f, sig₀, lifted, ran₁⟩ := bind_eq_ok.mp ran
    obtain ⟨fast, sig₁, quenched, ran₂⟩ := bind_eq_ok.mp ran₁
    obtain ⟨slow, sig₂, cooled, given⟩ := bind_eq_ok.mp ran₂
    obtain ⟨made, rfl⟩ := lift_eq_ok.mp lifted
    cases given
    exact ⟨f, fast, slow, sig₁, made, quenched, cooled, rfl, rfl⟩

theorem parts_of_rigidityTest {c : RigidityConfig} {r : RigidityResult} {sig sig' : Signal}
    (ran : rigidityTest c sig = .ok (r, sig')) :
    ∃ f run, (⟨c.n, c.alpha, c.seed⟩ : Trial.Instance).formula = .ok f ∧
      Trial.Instance.anneal ⟨c.n, c.alpha, c.seed⟩ f c.anneal 0 sig = .ok (run, sig') ∧
      r = examine run c.frozenFraction c.rigidityThreshold := by
  obtain ⟨passed, sig₀, checked, ran₁⟩ := bind_eq_ok.mp ran
  obtain ⟨f, sig₁, lifted, ran₂⟩ := bind_eq_ok.mp ran₁
  obtain ⟨run, sig₂, annealed, given⟩ := bind_eq_ok.mp ran₂
  obtain ⟨-, rfl⟩ := lift_eq_ok.mp checked
  obtain ⟨made, rfl⟩ := lift_eq_ok.mp lifted
  cases given
  exact ⟨f, run, made, annealed, rfl⟩

/-- An examination of an instance of at least three variables with a clause ratio ends with a
report when its schedule and its fraction are in their domains. -/
theorem rigidityTest_returns {c : RigidityConfig} (enough : 3 ≤ c.n) (small : c.n ≤ maxVar)
    (finite : c.alpha.isFinite = true) (nonnegative : ¬ c.alpha < 0.0)
    (valid : c.anneal.validate = .ok ())
    (permitted : Trial.checkFrozenFraction c.frozenFraction = .ok ()) :
    ∃ r, rigidityTest c .never = .ok (r, .never) := by
  let i : Trial.Instance := ⟨c.n, c.alpha, c.seed⟩
  obtain ⟨f, made⟩ := i.formula_returns enough small finite nonnegative
  obtain ⟨run, annealed⟩ :=
    i.anneal_returns (Trial.Instance.drawn_of_formula made).wellFormed valid 0
  refine ⟨examine run c.frozenFraction c.rigidityThreshold, ?_⟩
  simp only [rigidityTest, Task.bind_eq_ok, Task.lift_eq_ok]
  exact ⟨_, _, ⟨permitted, rfl⟩, f, _, ⟨made, rfl⟩, run, _, annealed, rfl⟩

theorem rigidityTest_counts (c : RigidityConfig) :
    (rigidityTest c).Ensures fun r => r.totalVars = c.n := by
  intro sig p ran
  obtain ⟨f, run, made, annealed, same⟩ := parts_of_rigidityTest ran
  have drawn := Trial.Instance.drawn_of_formula made
  have counted := (Trial.Instance.report_of_anneal drawn.wellFormed annealed).1
  rw [same]
  exact counted.trans drawn.numVars

end Landscape

namespace Backbone

theorem prune_names (c : PruneConfig) :
    (prune c).Ensures fun r => r.n = c.n ∧ r.alpha = c.alpha := by
  refine ensures_bind fun _ _ _ _ => ensures_bind fun f _ _ _ => ensures_bind fun full _ _ _ => ?_
  refine ensures_bind fun run _ _ _ => ensures_bind fun ls _ _ _ => ensures_bind fun g _ _ _ => ?_
  exact ensures_bind fun cut _ _ _ => ensures_bind fun _ _ _ _ => ensures_pure ⟨rfl, rfl⟩

theorem predictionTest_names (c : PredictionConfig) :
    (predictionTest c).Ensures fun r => r.n = c.n ∧ r.alpha = c.alpha :=
  ensures_bind fun _ _ _ _ => ensures_bind fun _ _ _ _ => ensures_bind fun _ _ _ _ =>
    ensures_pure ⟨rfl, rfl⟩

theorem universalityTest_names (c : UniversalityConfig) :
    (universalityTest c).Ensures fun r => r.n = c.base.n ∧ r.alpha = c.base.alpha :=
  ensures_guard <| ensures_bind fun _ _ _ _ => ensures_pure ⟨rfl, rfl⟩

theorem sizeTrend_names (c : TrendConfig) :
    (sizeTrend c).Ensures fun r => r.alpha = c.base.alpha :=
  ensures_guard <| ensures_bind fun _ _ _ _ => ensures_bind fun _ _ _ _ => ensures_pure rfl

end Backbone

theorem Incidence.correlateGap_names (c : GapConfig) :
    (correlateGap c).Ensures fun r => r.n = c.n ∧ r.alpha = c.alpha :=
  ensures_guard <| ensures_bind fun _ _ _ _ => ensures_pure ⟨rfl, rfl⟩

end SatLab
