import SatLab.Cost.AlphaScan
import SatLab.Cost.Extrapolation
import SatLab.Cost.Zones
import SatLab.Proofs.Cnf.Seeds
import SatLab.Proofs.Control.Task
/-!
The seeds that measurements draw their instances from. A measurement searches the formulas of a list
of seeds, one after the other; along a series the seeds of a point are counted on from the place of
the point, in blocks of `2^32`.
-/

set_option autoImplicit false
set_option relaxedAutoImplicit false

namespace SatLab.Cost

open SatLab.Task
open SatLab.Uniform (Seed deriveSeed deriveSeed_nat deriveSeed_eq_iff)

section Places

variable {base : Seed} {point point' sample sample' : Nat}

theorem pointSeed_eq (base : Seed) (point : Nat) :
    pointSeed base point = deriveSeed base (point * 2 ^ 32).toUInt64 := by
  have shifted : point.toUInt64 <<< 32 = (point * 2 ^ 32).toUInt64 := by
    apply UInt64.toNat_inj.mp
    simp [Nat.shiftLeft_eq]
  rw [pointSeed, shifted]

/-- The seed of a sample of a point of a series. -/
def sampleSeed (base : Seed) (point sample : Nat) : Seed :=
  deriveSeed (pointSeed base point) sample.toUInt64

private theorem sampleSeed_eq (base : Seed) (point sample : Nat) :
    sampleSeed base point sample = deriveSeed base (point * 2 ^ 32 + sample).toUInt64 := by
  rw [sampleSeed, pointSeed_eq, deriveSeed_nat]

theorem place_lt (few : point < 2 ^ 32) (short : sample < 2 ^ 32) :
    point * 2 ^ 32 + sample < 2 ^ 64 := by
  omega

theorem sampleSeed_inj (few : point < 2 ^ 32) (few' : point' < 2 ^ 32) (short : sample < 2 ^ 32)
    (short' : sample' < 2 ^ 32) :
    sampleSeed base point sample = sampleSeed base point' sample' ↔
      point = point' ∧ sample = sample' := by
  constructor
  · intro same
    rw [sampleSeed_eq, sampleSeed_eq, deriveSeed_eq_iff] at same
    have places := same.eq_of_lt_of_lt (place_lt few short) (place_lt few' short')
    clear same
    constructor <;> omega
  · rintro ⟨rfl, rfl⟩
    rfl

end Places

section Measurements

variable {n limit : Nat} {alpha : Float}

def seedsUnder (seed : Seed) (samples : Nat) : List Seed :=
  (List.range samples).map fun i => deriveSeed seed i.toUInt64

/-- Makes the instance of a seed, searches it and counts the search. -/
def Totals.search (n : Nat) (alpha : Float) (limit : Nat) (t : Totals) (seed : Seed) :
    Task Error Totals := do
  let f ← Task.lift ((Uniform.ofSeed n alpha seed).mapError .core)
  let r ← Task.mapError .ofFault (Search.solve limit f)
  Task.check .cancelled
  Task.lift ((t.add r).mapError .ofFault)

def Totals.sample (n : Nat) (alpha : Float) (samples limit : Nat) (t : Totals) : CostSample where
  n := n
  alpha := alpha
  samples := samples
  stepLimit := limit
  avgSteps := toReal t.steps / toReal samples
  maxSteps := t.maxSteps
  satisfiable := t.satisfiable
  unsatisfiable := t.unsatisfiable
  inconclusive := t.inconclusive

def measureOn (n : Nat) (alpha : Float) (limit : Nat) (seeds : List Seed) :
    Task Error CostSample :=
  if seeds = [] then throw (.rejected .noSamples)
  else Totals.sample n alpha seeds.length limit <$> seeds.foldlM (Totals.search n alpha limit) {}

theorem Totals.extend_eq (seed : Seed) (remaining number : Nat) (t : Totals) :
    extend n alpha limit seed remaining number t =
      ((List.range' number remaining).map fun i => deriveSeed seed i.toUInt64).foldlM
        (search n alpha limit) t := by
  induction remaining generalizing number t with
  | zero => rfl
  | succ remaining ih =>
    rw [List.range'_succ, List.map_cons, List.foldlM_cons]
    simp only [extend, search, bind_assoc, ih]

private theorem measure_eq (n : Nat) (alpha : Float) (samples limit : Nat) (seed : Seed) :
    measure n alpha samples limit seed = measureOn n alpha limit (seedsUnder seed samples) := by
  unfold measure measureOn seedsUnder
  cases samples with
  | zero => rfl
  | succ samples =>
    rw [Totals.extend_eq, ← List.range_eq_range', if_neg (Nat.succ_ne_zero samples),
      if_neg (by simp), List.length_map, List.length_range]
    rfl

theorem sweepSizes_eq (alpha : Float) (sizes : List Nat) (samples : Nat) (budget : StepBudget)
    (seed : Seed) : sweepSizes alpha sizes samples budget seed =
      sizes.zipIdx.mapM fun (n, point) =>
        measureOn n alpha (budget.limitFor point)
          ((List.range samples).map (sampleSeed seed point)) := by
  unfold sweepSizes
  simp only [measure_eq]
  rfl

theorem sweepAlphas_eq (n : Nat) (alphas : List Float) (samples limit : Nat) (seed : Seed) :
    sweepAlphas n alphas samples limit seed =
      alphas.zipIdx.mapM fun (alpha, point) =>
        measureOn n alpha limit ((List.range samples).map (sampleSeed seed point)) := by
  unfold sweepAlphas
  simp only [measure_eq]
  rfl

theorem points_of_scan {c : ScanConfig} {r : ScanResult} {sig sig' : Signal}
    (ran : scan c sig = .ok (r, sig')) :
    ∃ alphas samples, alphaGrid c.alphaMin c.alphaMax c.alphaStep = .ok alphas ∧
      sweepAlphas c.n alphas c.samplesPerAlpha c.stepLimit c.seed sig = .ok (samples, sig') ∧
      r.points = samples.map CostSample.scanPoint := by
  rw [scan, bind_eq_ok] at ran
  obtain ⟨alphas, sig₀, lifted, ran⟩ := ran
  obtain ⟨spread, rfl⟩ := lift_eq_ok.mp lifted
  rw [bind_eq_ok] at ran
  obtain ⟨samples, sig₁, swept, ran⟩ := ran
  cases best : peak? ScanPoint.avgSteps (samples.map CostSample.scanPoint) with
  | none =>
    simp only [best] at ran
    cases ran
  | some peak =>
    simp only [best] at ran
    cases ran
    exact ⟨alphas, samples, spread, swept, rfl⟩

theorem points_of_mapZones {c : ZoneConfig} {r : ZoneMap} {sig sig' : Signal}
    (ran : mapZones c sig = .ok (r, sig')) :
    ∃ alphas samples, alphaGrid c.alphaMin c.alphaMax c.alphaStep = .ok alphas ∧
      sweepAlphas c.n alphas c.samplesPerAlpha c.stepLimit c.seed sig = .ok (samples, sig') ∧
      r.points = samples.map (·.zonePoint c) := by
  rw [mapZones] at ran
  split at ran
  · cases ran
  · rw [bind_eq_ok] at ran
    obtain ⟨alphas, sig₀, lifted, ran⟩ := ran
    obtain ⟨spread, rfl⟩ := lift_eq_ok.mp lifted
    rw [bind_eq_ok] at ran
    obtain ⟨samples, sig₁, swept, ran⟩ := ran
    cases best : peak? ZonePoint.branchingFactor (samples.map (·.zonePoint c)) with
    | none =>
      simp only [best] at ran
      cases ran
    | some peak =>
      simp only [best] at ran
      cases ran
      exact ⟨alphas, samples, spread, swept, rfl⟩

private theorem swept_of_fitted {α : Type} {accepted : Except Error Unit}
    {sweep : Task Error (List CostSample)} {g : List CostSample → Comparison → α} {r : α}
    {sig sig' : Signal}
    (ran : (do
      lift accepted
      let samples ← sweep
      let fit ← lift (fitSamples samples)
      return g samples fit : Task Error α) sig = .ok (r, sig')) :
    ∃ samples fit, sweep sig = .ok (samples, sig') ∧ g samples fit = r := by
  rw [bind_eq_ok] at ran
  obtain ⟨passed, sig₀, checked, ran⟩ := ran
  obtain ⟨-, rfl⟩ := lift_eq_ok.mp checked
  rw [bind_eq_ok] at ran
  obtain ⟨samples, sig₁, swept, ran⟩ := ran
  rw [bind_eq_ok] at ran
  obtain ⟨fit, sig₂, fitted, ran⟩ := ran
  obtain ⟨-, rfl⟩ := lift_eq_ok.mp fitted
  cases ran
  exact ⟨samples, fit, swept, rfl⟩

theorem samples_of_scanSizes {c : GrowthConfig} {r : GrowthResult} {sig sig' : Signal}
    (ran : scanSizes c sig = .ok (r, sig')) :
    sweepSizes c.alpha c.sizes c.samplesPerSize c.budget c.seed sig = .ok (r.samples, sig') := by
  obtain ⟨samples, fit, swept, rfl⟩ := swept_of_fitted ran
  exact swept

theorem samples_of_stressTest {c : StressConfig} {r : StressResult} {sig sig' : Signal}
    (ran : stressTest c sig = .ok (r, sig')) :
    sweepSizes c.alpha c.sizes c.samplesPerSize c.budget c.seed sig = .ok (r.samples, sig') := by
  obtain ⟨samples, fit, swept, rfl⟩ := swept_of_fitted ran
  exact swept

theorem probe_of_extrapolate {c : ExtrapolationConfig} {e : Extrapolation} {sig sig' : Signal}
    (ran : extrapolate c sig = .ok (e, sig')) :
    ∃ sig₁, sweepSizes c.alpha c.fitSizes c.fitSamples c.fitBudget c.seed sig =
        .ok (e.fitSamples, sig₁) ∧
      measureOn c.probeSize c.alpha c.probeStepLimit
        ((List.range c.probeSamples).map (sampleSeed c.seed c.fitSizes.length)) sig₁ =
          .ok (e.probe, sig') := by
  rw [extrapolate, bind_eq_ok] at ran
  obtain ⟨accepted, sig₀, checked, ran⟩ := ran
  obtain ⟨-, rfl⟩ := lift_eq_ok.mp checked
  dsimp only at ran
  split at ran
  · cases ran
  · rw [bind_eq_ok] at ran
    obtain ⟨samples, sig₁, swept, ran⟩ := ran
    rw [bind_eq_ok] at ran
    obtain ⟨fit, sig₂, fitted, ran⟩ := ran
    obtain ⟨-, rfl⟩ := lift_eq_ok.mp fitted
    rw [bind_eq_ok] at ran
    obtain ⟨probe, sig₃, measured, ran⟩ := ran
    cases ran
    rw [measure_eq] at measured
    exact ⟨_, swept, measured⟩

end Measurements

end SatLab.Cost
