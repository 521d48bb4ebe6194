import SatLab.Backbone.SizeTrend
import SatLab.Proofs.Cnf.Seeds
import SatLab.Proofs.Control.Task
/-!
The instances of a size trend. The seed of a sample is derived from the seed of its size, and that
one from the seed of the trend; the strides of both add up, so that a sample of one size and an
earlier sample of a later size come from the same seed.
-/

set_option autoImplicit false
set_option relaxedAutoImplicit false

namespace SatLab.Backbone

open SatLab.Trial (Instance)
open SatLab.Uniform (deriveSeed deriveSeed_nat deriveSeed_eq_iff)

namespace TrendConfig

def baseAt (c : TrendConfig) (n number : Nat) : PredictionConfig :=
  c.base.withInstance n (deriveSeed c.base.seed number.toUInt64)

def sampleAt (c : TrendConfig) (n number sample : Nat) : Instance :=
  (c.baseAt n number).toInstance.nth sample.toUInt64

private theorem sampleAt_eq (c : TrendConfig) (n number sample : Nat) :
    c.sampleAt n number sample =
      ⟨n, c.base.alpha, deriveSeed c.base.seed (number + sample).toUInt64⟩ := by
  rw [← deriveSeed_nat]
  rfl

private theorem sampleAt_congr (c : TrendConfig) {n number sample number' sample' : Nat}
    (sums : number + sample = number' + sample') :
    c.sampleAt n number sample = c.sampleAt n number' sample' := by
  rw [sampleAt_eq, sampleAt_eq, sums]

end TrendConfig

theorem predictOn_congr {base base' : PredictionConfig} (inst : Instance)
    (truth : base.groundTruth = base'.groundTruth) (leak : base.leakAccuracy = base'.leakAccuracy)
    (weak : base.weakAccuracy = base'.weakAccuracy) :
    predictOn inst base = predictOn inst base' := by
  unfold predictOn
  rw [truth, leak, weak]

private theorem predictOn_baseAt (c : TrendConfig) (inst : Instance) (n number : Nat) :
    predictOn inst (c.baseAt n number) = predictOn inst c.base :=
  predictOn_congr inst rfl rfl rfl

/-- The accuracy at one size from the predictions on its samples; none when no sample has a
backbone. -/
def SizeAccuracy.ofResults? (n : Nat) (results : List PredictionResult) : Option SizeAccuracy :=
  let accuracies := results.filterMap fun r =>
    if r.diagnosis = .noBackbone then none else some r.accuracy
  if accuracies.isEmpty then none else some ⟨n, accuracies.length, .ofList accuracies⟩

theorem accuracyAt_eq (c : TrendConfig) (n number : Nat) :
    accuracyAt c n number = SizeAccuracy.ofResults? n <$>
      (List.range c.samplesPerSize).mapM fun j =>
        predictOn (c.sampleAt n number j) (c.baseAt n number) := by
  rw [accuracyAt, sampleAccuracies, bind_assoc, map_eq_pure_bind]
  apply bind_congr
  intro results
  rw [pure_bind, SizeAccuracy.ofResults?]
  split <;> rfl

theorem points_of_sizeTrend {c : TrendConfig} {r : TrendResult} {sig sig' : Signal}
    (ran : sizeTrend c sig = .ok (r, sig')) :
    ∃ found, (c.sizes.zipIdx.mapM fun (n, number) => accuracyAt c n number) sig =
      .ok (found, sig') ∧ r.points = found.filterMap id := by
  unfold sizeTrend at ran
  split at ran
  · cases ran
  · obtain ⟨found, sig₁, measured, ran⟩ := Task.bind_eq_ok.mp ran
    obtain ⟨trend, sig₂, lifted, given⟩ := Task.bind_eq_ok.mp ran
    obtain ⟨-, rfl⟩ := Task.lift_eq_ok.mp lifted
    cases given
    exact ⟨found, measured, rfl⟩

theorem accuracies_of_universalityTest {c : UniversalityConfig} {r : UniversalityResult}
    {sig sig' : Signal} (ran : universalityTest c sig = .ok (r, sig')) :
    ∃ results, ((List.range c.samples).mapM fun i =>
        predictOn (c.base.toInstance.nth i.toUInt64) c.base) sig = .ok (results, sig') ∧
      r.accuracies = results.filterMap fun r =>
        if r.diagnosis = .noBackbone then none else some r.accuracy := by
  unfold universalityTest at ran
  split at ran
  · cases ran
  · obtain ⟨accuracies, sig₁, sampled, ran⟩ := Task.bind_eq_ok.mp ran
    obtain ⟨results, sig₂, predicted, kept⟩ := Task.bind_eq_ok.mp sampled
    cases kept
    cases ran
    exact ⟨results, predicted, rfl⟩

/-- A size trend predicts on its samples size by size, and two samples have the same seed exactly
when the number of the size and the number of the sample have the same sum. So samples of one size
never meet, but a sample of one size and the sample before it at the next size do, and where the two
sizes are equal it is one instance, on which the same prediction is made twice. -/
theorem trend_samples_meet_iff (c : TrendConfig) :
    (∀ n number, accuracyAt c n number = SizeAccuracy.ofResults? n <$>
      (List.range c.samplesPerSize).mapM fun j =>
        predictOn (c.sampleAt n number j) (c.baseAt n number)) ∧
    (∀ n n' i j i' j' : Nat, i < 2 ^ 32 → j < 2 ^ 32 → i' < 2 ^ 32 → j' < 2 ^ 32 →
      ((c.sampleAt n i j).seed = (c.sampleAt n' i' j').seed ↔ i + j = i' + j')) ∧
    ∀ n i j i' j' : Nat, i + j = i' + j' → c.sampleAt n i j = c.sampleAt n i' j' ∧
      predictOn (c.sampleAt n i j) (c.baseAt n i) =
        predictOn (c.sampleAt n i' j') (c.baseAt n i') := by
  refine ⟨accuracyAt_eq c, ?_, ?_⟩
  · intro n n' i j i' j' hi hj hi' hj'
    have fits : i + j < 2 ^ 64 := by omega
    have fits' : i' + j' < 2 ^ 64 := by omega
    rw [c.sampleAt_eq, c.sampleAt_eq, deriveSeed_eq_iff]
    constructor
    · intro agree
      exact Nat.ModEq.eq_of_lt_of_lt agree fits fits'
    · intro sums
      rw [sums]
  · intro n i j i' j' sums
    have same := c.sampleAt_congr (n := n) sums
    refine ⟨same, ?_⟩
    rw [same, predictOn_baseAt, predictOn_baseAt]

/-- With the usual settings the second sample at 20 variables and the first at 30 come from one
seed. -/
theorem usual_samples_meet : 1 < 2 ^ 32 ∧
    (({} : TrendConfig).sampleAt 20 0 1).seed = (({} : TrendConfig).sampleAt 30 1 0).seed := by
  have zero : 0 < 2 ^ 32 := by decide
  have one : 1 < 2 ^ 32 := by decide
  obtain ⟨-, meet, -⟩ := trend_samples_meet_iff {}
  exact ⟨one, (meet 20 30 0 1 1 0 zero one one zero).mpr rfl⟩

end SatLab.Backbone
