import SatLab.Campaign.Run
import SatLab.Proofs.Backbone.SizeTrend
import SatLab.Proofs.Cost.Seeds
/-!
The seeds of the instances of a campaign. Every seed is the seed of the campaign and a number of
strides: the place of the phase, and then the points and samples within the phase. Only the points
of a series are counted in blocks of their own, so that an instance of one phase can be one of
another phase.
-/

set_option autoImplicit false
set_option relaxedAutoImplicit false

namespace SatLab.Campaign

open SatLab.Trial (Instance)
open SatLab.Uniform (Seed deriveSeed deriveSeed_nat deriveSeed_eq_iff)
open SatLab.Cost (pointSeed_eq)
open SatLab.Backbone (PredictionConfig predictOn predictOn_congr)

/-- The instance that a phase makes for a sample of a point, with a size and a clause ratio. A phase
that makes one instance has one point of one sample. -/
def Settings.instanceOf (c : Settings) (n : Nat) (alpha : Float) (phase : Phase)
    (point sample : Nat) : Instance :=
  let seed := c.phaseSeed phase
  match phase with
  | .alphaScan | .sizeScan | .stress | .extrapolation | .zones =>
    ⟨n, alpha, deriveSeed (Cost.pointSeed seed point) sample.toUInt64⟩
  | .energyTail | .hysteresis | .rigidity | .pruning => ⟨n, alpha, seed⟩
  | .prediction => PredictionConfig.toInstance { c.prediction with n, alpha, seed }
  | .universality =>
    (PredictionConfig.toInstance { c.universality.base with n, alpha, seed }).nth sample.toUInt64
  | .sizeTrend =>
    let base : PredictionConfig := { c.sizeTrend.base with alpha, seed }
    (base.withInstance n (deriveSeed base.seed point.toUInt64)).toInstance.nth sample.toUInt64
  | .gapCorrelation => Instance.nth ⟨n, alpha, seed⟩ sample.toUInt64

/-- How many strides the seed of an instance is from the seed of the campaign. -/
def Phase.strides (phase : Phase) (point sample : Nat) : Nat :=
  phase.index + match phase with
    | alphaScan | sizeScan | stress | extrapolation | zones => point * 2 ^ 32 + sample
    | energyTail | hysteresis | rigidity | pruning | prediction => 0
    | universality | gapCorrelation => sample
    | sizeTrend => point + sample

section Instances

variable {c : Settings} {phase phase' : Phase}

private theorem Settings.instanceOf_eq (c : Settings) (n : Nat) (alpha : Float) (phase : Phase)
    (point sample : Nat) : c.instanceOf n alpha phase point sample =
      ⟨n, alpha, deriveSeed c.seed (phase.strides point sample).toUInt64⟩ := by
  cases phase with
  | alphaScan | sizeScan | stress | extrapolation | zones =>
    rw [instanceOf, phaseSeed, pointSeed_eq, deriveSeed_nat, deriveSeed_nat, Phase.strides,
      ← Nat.add_assoc]
  | energyTail | hysteresis | rigidity | pruning | prediction => rfl
  | universality | gapCorrelation =>
    rw [instanceOf, phaseSeed, Phase.strides, ← deriveSeed_nat]
    rfl
  | sizeTrend =>
    rw [instanceOf, phaseSeed, Phase.strides, ← Nat.add_assoc, ← deriveSeed_nat, ← deriveSeed_nat]
    rfl

private theorem Settings.seed_instanceOf_eq_iff {n n' point point' sample sample' : Nat}
    {alpha alpha' : Float} : (c.instanceOf n alpha phase point sample).seed =
      (c.instanceOf n' alpha' phase' point' sample').seed ↔
        phase.strides point sample ≡ phase'.strides point' sample' [MOD 2 ^ 64] := by
  rw [instanceOf_eq, instanceOf_eq]
  exact deriveSeed_eq_iff

private theorem Phase.strides_first (phase : Phase) : phase.strides 0 0 = phase.index := by
  cases phase <;> rfl

private theorem Settings.seed_instanceOf_ne {n n' : Nat} {alpha alpha' : Float}
    (other : phase ≠ phase') :
    (c.instanceOf n alpha phase 0 0).seed ≠ (c.instanceOf n' alpha' phase' 0 0).seed := by
  intro same
  have places := seed_instanceOf_eq_iff.mp same
  rw [Phase.strides_first, Phase.strides_first] at places
  have few : ∀ p : Phase, p.index < 2 ^ 64 := by
    intro p
    cases p <;> decide
  have index := Nat.ModEq.eq_of_lt_of_lt places (few phase) (few phase')
  exact other (Phase.index_injective index)

end Instances

/-- Instances of a campaign have the same seed exactly when their strides agree as words. The first
instances of different phases have different seeds, so that phases with one instance each never
meet. The others do: the sample of the clause ratio scan at its first point whose number is the
place of a phase shares its seed with the first instance of that phase, the correlation of the gap
works on the samples of the universality test from the third on, and at the size of that test and
with its settings the size trend predicts what the test predicts. -/
theorem instances_meet_iff (c : Settings) :
    (∀ n n' alpha alpha' phase phase' point point' sample sample',
      (c.instanceOf n alpha phase point sample).seed =
        (c.instanceOf n' alpha' phase' point' sample').seed ↔
          Phase.strides phase point sample ≡ Phase.strides phase' point' sample' [MOD 2 ^ 64]) ∧
    (∀ n n' alpha alpha' phase phase', phase ≠ phase' →
      (c.instanceOf n alpha phase 0 0).seed ≠ (c.instanceOf n' alpha' phase' 0 0).seed) ∧
    (∀ n n' alpha alpha' phase, (c.instanceOf n alpha .alphaScan 0 (Phase.index phase)).seed =
      (c.instanceOf n' alpha' phase 0 0).seed) ∧
    (∀ n alpha i, c.instanceOf n alpha .gapCorrelation 0 i =
      c.instanceOf n alpha .universality 0 (i + 2)) ∧
    ∀ n alpha number i,
      c.instanceOf n alpha .sizeTrend number i =
        c.instanceOf n alpha .universality 0 (number + i + 1) ∧
      ∀ base : PredictionConfig,
        predictOn (c.instanceOf n alpha .sizeTrend number i)
            (({ base with alpha, seed := c.phaseSeed .sizeTrend } : PredictionConfig).withInstance
              n (deriveSeed (c.phaseSeed .sizeTrend) number.toUInt64)) =
          predictOn (c.instanceOf n alpha .universality 0 (number + i + 1))
            { base with n, alpha, seed := c.phaseSeed .universality } := by
  have trend : ∀ n alpha number i, c.instanceOf n alpha .sizeTrend number i =
      c.instanceOf n alpha .universality 0 (number + i + 1) := by
    intro n alpha number i
    have same : Phase.strides .sizeTrend number i =
        Phase.strides .universality 0 (number + i + 1) := by
      change 11 + (number + i) = 10 + (number + i + 1)
      omega
    rw [c.instanceOf_eq, c.instanceOf_eq, same]
  refine ⟨?_, ?_, ?_, ?_, ?_⟩
  · intro n n' alpha alpha' phase phase' point point' sample sample'
    exact c.seed_instanceOf_eq_iff
  · intro n n' alpha alpha' phase phase' other
    exact c.seed_instanceOf_ne other
  · intro n n' alpha alpha' phase
    apply c.seed_instanceOf_eq_iff.mpr
    have scan : Phase.strides .alphaScan 0 phase.index = phase.index := by
      change 0 + (0 * 2 ^ 32 + phase.index) = phase.index
      omega
    rw [scan, phase.strides_first]
  · intro n alpha i
    have same : Phase.strides .gapCorrelation 0 i = Phase.strides .universality 0 (i + 2) := by
      change 12 + i = 10 + (i + 2)
      omega
    rw [c.instanceOf_eq, c.instanceOf_eq, same]
  · intro n alpha number i
    refine ⟨trend n alpha number i, ?_⟩
    intro base
    rw [trend n alpha number i]
    exact predictOn_congr _ rfl rfl rfl

end SatLab.Campaign
