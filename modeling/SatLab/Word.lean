import SatLab.Fault
/-!
Counters and seeds are 64-bit words. Counters are natural numbers whose sums are checked
against the word; seeds wrap around. Conversions to doubles round to nearest, conversions
from doubles drop the fraction and stay within the word.
-/

set_option autoImplicit false
set_option relaxedAutoImplicit false

namespace SatLab

/-- The first number beyond a word. -/
def wordBound : Nat := 0x10000000000000000

/-- The least count of eight-byte entries that no table can hold. -/
def tableBound : Nat := 0x1000000000000000

/-- The first number beyond half a word. -/
def halfBound : Nat := 0x100000000

/-- What a cast to half a word leaves of a number. -/
def lowHalf (n : Nat) : Nat := n % halfBound

theorem lowHalf_of_lt {n : Nat} (fits : n < halfBound) : lowHalf n = n :=
  Nat.mod_eq_of_lt fits

theorem lowHalf_le (n : Nat) : lowHalf n ≤ n := Nat.mod_le n halfBound

def addCounters (a b : Nat) : Except Fault Nat :=
  if a + b < wordBound then .ok (a + b) else .error .overflow

def mulSaturating (a b : Nat) : Nat :=
  min (a * b) (wordBound - 1)

/-- The double nearest to a counter. -/
def toReal (n : Nat) : Float :=
  n.toUInt64.toFloat

/-- The whole part of a double, held within the word; zero when it is not a number. -/
def ofReal (x : Float) : Nat :=
  x.toUInt64.toNat

/-- The whole number nearest to a double, half away from zero; zero below zero and when it is not
a number, and held within the word. -/
def nearest (x : Float) : Nat :=
  let whole := ofReal x
  if 0.5 ≤ x - toReal whole then min (whole + 1) (wordBound - 1) else whole

/-- The larger of two doubles; the other one when one of them is not a number, and the second
one when they are equal, which tells for the two zeros. -/
def larger (x y : Float) : Float :=
  if x.isNaN || x ≤ y then y else x

/-- The smaller of two doubles; the other one when one of them is not a number, and the second
one when they are equal. -/
def smaller (x y : Float) : Float :=
  if x.isNaN || y ≤ x then y else x

/-- The sum from left to right. It starts from the neutral element of addition, which is
the negative zero. -/
def sumReals (xs : List Float) : Float :=
  xs.foldl (· + ·) (-0.0)

/-- Part over whole, zero when the whole is zero. -/
def ratio (part whole : Nat) : Float :=
  if whole = 0 then 0.0 else toReal part / toReal whole

end SatLab
