/-!
Exact arithmetic on the size of a double. Every finite double is a whole number times a
power of two, so questions about its decimal digits are questions about natural numbers.
-/

set_option autoImplicit false
set_option relaxedAutoImplicit false

namespace SatLab.Decimal

/-- The size of a finite double, `mantissa * 2 ^ exponent`. -/
structure Magnitude where
  mantissa : Nat
  exponent : Int
  -- whether the next smaller double is half as far away as the next larger one
  closeBelow : Bool
  deriving DecidableEq, Repr

def Magnitude.ofBits (bits : UInt64) : Magnitude :=
  let biased := ((bits >>> 52) &&& 0x7ff).toNat
  let fraction := (bits &&& 0xfffffffffffff).toNat
  if biased = 0 then ⟨fraction, -1074, false⟩
  else ⟨0x10000000000000 + fraction, (biased : Int) - 1075, fraction == 0 && decide (1 < biased)⟩

/-- Which neighbour an exact half goes to. -/
inductive Tie
  | toEven
  | awayFromZero
  deriving DecidableEq, Repr

/-- The quotient rounded to the nearest whole number. -/
def roundDiv (tie : Tie) (num den : Nat) : Nat :=
  let q := num / den
  let r := num % den
  if 2 * r < den then q
  else if den < 2 * r then q + 1
  else match tie with
    | .awayFromZero => q + 1
    | .toEven => q + q % 2

/-- Numerator and denominator of the size divided by `10 ^ grid`. -/
def Magnitude.over (x : Magnitude) (grid : Int) : Nat × Nat :=
  (x.mantissa * Nat.pow 2 x.exponent.toNat * Nat.pow 10 (-grid).toNat,
    Nat.pow 2 (-x.exponent).toNat * Nat.pow 10 grid.toNat)

/-- The exponent of the leading decimal digit of a nonzero size. The binary length gives it
up to one unit, and an exact comparison decides. -/
def Magnitude.order (x : Magnitude) : Int :=
  let guess := (((x.mantissa.log2 : Int) + x.exponent) * 1262611) >>> (22 : Nat)
  let (num, den) := x.over (guess + 1)
  if den ≤ num then guess + 1 else guess

end SatLab.Decimal
