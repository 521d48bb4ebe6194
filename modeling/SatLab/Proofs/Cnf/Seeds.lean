import Mathlib.Data.Nat.ModEq
import SatLab.Cnf.Uniform
/-!
Seeds by the number of strides from a base seed. A seed derived twice is one derived once, by the
sum of the two numbers, and two seeds are the same exactly when their numbers agree as words.
-/

set_option autoImplicit false
set_option relaxedAutoImplicit false

namespace SatLab.Uniform

variable {base : Seed} {a b : Nat}

private theorem deriveSeed_deriveSeed (base i j : Seed) :
    deriveSeed (deriveSeed base i) j = deriveSeed base (i + j) := by
  rw [deriveSeed, deriveSeed, deriveSeed, UInt64.add_mul, UInt64.add_assoc]

theorem deriveSeed_nat (base : Seed) (a b : Nat) :
    deriveSeed (deriveSeed base a.toUInt64) b.toUInt64 = deriveSeed base (a + b).toUInt64 := by
  have sum : (a + b).toUInt64 = a.toUInt64 + b.toUInt64 := UInt64.ofNat_add a b
  rw [deriveSeed_deriveSeed, sum]

theorem deriveSeed_eq_iff :
    deriveSeed base a.toUInt64 = deriveSeed base b.toUInt64 ↔ a ≡ b [MOD 2 ^ 64] := by
  constructor
  · intro same
    have words : a.toUInt64 = b.toUInt64 := deriveSeed_injective same
    have places := congrArg UInt64.toNat words
    rwa [UInt64.toNat_ofNat', UInt64.toNat_ofNat'] at places
  · intro same
    have words : a.toUInt64 = b.toUInt64 := by
      apply UInt64.toNat_inj.mp
      rwa [UInt64.toNat_ofNat', UInt64.toNat_ofNat']
    rw [words]

end SatLab.Uniform
