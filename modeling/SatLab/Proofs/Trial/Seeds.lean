import SatLab.Proofs.Cost.Seeds
import SatLab.Trial.Instance
/-!
The seeds of independent experiments. The instances under one seed are numbered from the seed on,
and the searches on each of them are counted in blocks of `2^48`, so that no instance and no search
has the seed of another one.
-/

set_option autoImplicit false
set_option relaxedAutoImplicit false

namespace SatLab.Trial

open SatLab.Uniform (Seed deriveSeed deriveSeed_nat deriveSeed_eq_iff)
open SatLab.Cost

namespace Instance

/-- The seed of a numbered instance, or of a numbered search on it. -/
def seedOf (inst : Instance) (index : Seed) : Option Seed → Seed
  | none => (inst.nth index).seed
  | some stream => (inst.nth index).searchSeed stream

/-- How far a search is from the instance that it is made on. -/
def block : Option Seed → Nat
  | none => 0
  | some stream => (stream.toNat + 1) * 2 ^ 48

private theorem searchSeed_eq (inst : Instance) (stream : Seed) :
    inst.searchSeed stream = deriveSeed inst.seed (block (some stream)).toUInt64 := by
  have shifted : (stream + 1) <<< 48 = ((stream.toNat + 1) * 2 ^ 48).toUInt64 := by
    apply UInt64.toNat_inj.mp
    simp [Nat.shiftLeft_eq, Nat.mod_mul_mod]
  rw [searchSeed, shifted, block]

private theorem seedOf_eq (inst : Instance) (index : Seed) (search : Option Seed) :
    inst.seedOf index search = deriveSeed inst.seed (index.toNat + block search).toUInt64 := by
  have numbered : index.toNat.toUInt64 = index := UInt64.ofNat_toNat
  rw [← deriveSeed_nat, numbered]
  cases search with
  | none =>
    have first : ∀ base : Seed, deriveSeed base (block none).toUInt64 = base := by
      simp [block, deriveSeed]
    exact (first _).symm
  | some stream => exact (inst.nth index).searchSeed_eq stream

private theorem block_le {search : Option Seed}
    (few : ∀ stream ∈ search, stream.toNat < 2 ^ 16 - 1) : block search ≤ 2 ^ 64 - 2 ^ 48 := by
  cases search with
  | none => exact Nat.zero_le _
  | some stream =>
    have bound := few stream rfl
    simp only [block]
    omega

private theorem block_inj {search search' : Option Seed} {a b : Nat} (short : a < 2 ^ 48)
    (short' : b < 2 ^ 48) (same : a + block search = b + block search') :
    a = b ∧ search = search' := by
  -- A number below the length of a block does not reach into the next one.
  cases search with
  | none =>
    cases search' with
    | none => exact ⟨same, rfl⟩
    | some stream' =>
      simp only [block] at same
      omega
  | some stream =>
    cases search' with
    | none =>
      simp only [block] at same
      omega
    | some stream' =>
      simp only [block] at same
      have streams : stream.toNat = stream'.toNat := by omega
      exact ⟨by omega, congrArg some (UInt64.toNat_inj.mp streams)⟩

/-- Below `2^48`, the instance and the search can be read off the seed, unless the block of the
search is the one that wraps around. -/
private theorem seedOf_inj (inst : Instance) {index index' : Seed} {search search' : Option Seed}
    (short : index.toNat < 2 ^ 48) (short' : index'.toNat < 2 ^ 48)
    (few : ∀ stream ∈ search, stream.toNat < 2 ^ 16 - 1)
    (few' : ∀ stream ∈ search', stream.toNat < 2 ^ 16 - 1) :
    inst.seedOf index search = inst.seedOf index' search' ↔
      index = index' ∧ search = search' := by
  constructor
  · intro same
    rw [seedOf_eq, seedOf_eq, deriveSeed_eq_iff] at same
    have within := block_le few
    have within' := block_le few'
    have places := same.eq_of_lt_of_lt (by omega) (by omega)
    obtain ⟨numbers, searches⟩ := block_inj short short' places
    exact ⟨UInt64.toNat_inj.mp numbers, searches⟩
  · rintro ⟨rfl, rfl⟩
    rfl

end Instance

/-- No two samples of a series, and no two independent experiments, have the same seed. The series
over the sizes and the one over the clause ratios draw each sample of a point from its own seed, and
so does an extrapolation, whose last measurement takes the point behind its sizes. With fewer than
`2^32` points and samples, the seeds of two of them are the same only when both numbers are. An
instance is made from its seed and a search on it draws from its own; with fewer than `2^48`
instances and `2^16 - 1` searches on each, all of them together have different seeds. -/
theorem seeds_apart :
    (∀ (alpha : Float) (sizes : List Nat) (samples : Nat) (budget : StepBudget) (base : Seed),
      sweepSizes alpha sizes samples budget base = sizes.zipIdx.mapM fun (n, point) =>
        measureOn n alpha (budget.limitFor point)
          ((List.range samples).map (sampleSeed base point))) ∧
    (∀ (n : Nat) (alphas : List Float) (samples limit : Nat) (base : Seed),
      sweepAlphas n alphas samples limit base = alphas.zipIdx.mapM fun (alpha, point) =>
        measureOn n alpha limit ((List.range samples).map (sampleSeed base point))) ∧
    (∀ (c : ExtrapolationConfig) (e : Extrapolation) (sig sig' : Signal),
      extrapolate c sig = .ok (e, sig') → ∃ sig₁,
        sweepSizes c.alpha c.fitSizes c.fitSamples c.fitBudget c.seed sig =
          .ok (e.fitSamples, sig₁) ∧
        measureOn c.probeSize c.alpha c.probeStepLimit
          ((List.range c.probeSamples).map (sampleSeed c.seed c.fitSizes.length)) sig₁ =
            .ok (e.probe, sig')) ∧
    (∀ (base : Seed) (point point' sample sample' : Nat), point < 2 ^ 32 → point' < 2 ^ 32 →
      sample < 2 ^ 32 → sample' < 2 ^ 32 →
        (sampleSeed base point sample = sampleSeed base point' sample' ↔
          point = point' ∧ sample = sample')) ∧
    (∀ (inst : Instance) (index stream : Seed),
      (inst.nth index).formula =
        (Uniform.ofSeed inst.n inst.alpha (inst.seedOf index none)).mapError .core ∧
      (inst.nth index).searchSource stream = .ofSeed (inst.seedOf index (some stream))) ∧
    ∀ (inst : Instance) (index index' : Seed) (search search' : Option Seed),
      index.toNat < 2 ^ 48 → index'.toNat < 2 ^ 48 →
      (∀ stream ∈ search, stream.toNat < 2 ^ 16 - 1) →
      (∀ stream ∈ search', stream.toNat < 2 ^ 16 - 1) →
        (inst.seedOf index search = inst.seedOf index' search' ↔
          index = index' ∧ search = search') := by
  refine ⟨sweepSizes_eq, sweepAlphas_eq, ?_, ?_, ?_, ?_⟩
  · intro c e sig sig' ran
    exact probe_of_extrapolate ran
  · intro base point point' sample sample' few few' short short'
    exact sampleSeed_inj few few' short short'
  · intro inst index stream
    refine ⟨?_, ?_⟩
    · rw [Instance.formula, Instance.seedOf, Instance.nth]
    · rw [Instance.searchSource, Instance.seedOf]
  · intro inst index index' search search' short short' few few'
    exact inst.seedOf_inj short short' few few'

end SatLab.Trial
