import SatLab.Decimal.Magnitude
/-!
The fewest digits that read back. A decimal reads back when it lies among the reals that
round to the double: between the midpoints to its two neighbours, ends included exactly
when the mantissa is even. Of the coarsest grid with such a decimal the nearest one is taken.
-/

set_option autoImplicit false
set_option relaxedAutoImplicit false

namespace SatLab.Decimal

/-- The decimal `digits * 10 ^ exponent`. -/
structure Scaled where
  digits : Nat
  exponent : Int
  deriving DecidableEq, Repr

/-- Compares a number of quarter units in the last place with a decimal, exactly. -/
def Magnitude.compareQuarters (x : Magnitude) (quarters : Nat) (d : Scaled) : Ordering :=
  let e := x.exponent - 2
  compare (quarters * Nat.pow 2 e.toNat * Nat.pow 10 (-d.exponent).toNat)
    (d.digits * Nat.pow 10 d.exponent.toNat * Nat.pow 2 (-e).toNat)

def Magnitude.readsBack (x : Magnitude) (d : Scaled) : Bool :=
  let low := if x.closeBelow then 4 * x.mantissa - 1 else 4 * x.mantissa - 2
  let closed := x.mantissa % 2 == 0
  let fromLow := x.compareQuarters low d
  let toHigh := x.compareQuarters (4 * x.mantissa + 2) d
  (fromLow == .lt || (closed && fromLow == .eq)) && (toHigh == .gt || (closed && toHigh == .eq))

/-- The nearest multiple of `10 ^ grid` that reads back, if one of the two neighbours does. -/
def Magnitude.onGrid? (tie : Tie) (x : Magnitude) (grid : Int) : Option Scaled :=
  let (num, den) := x.over grid
  let below : Scaled := ⟨num / den, grid⟩
  let above : Scaled := ⟨num / den + 1, grid⟩
  match x.readsBack below, x.readsBack above with
  | true, true => some ⟨roundDiv tie num den, grid⟩
  | true, false => some below
  | false, true => some above
  | false, false => none

def Magnitude.exact (x : Magnitude) : Scaled :=
  if 0 ≤ x.exponent then ⟨x.mantissa * Nat.pow 2 x.exponent.toNat, 0⟩
  else ⟨x.mantissa * Nat.pow 5 (-x.exponent).toNat, x.exponent⟩

def Scaled.stripped (d : Scaled) : Scaled :=
  if h : d.digits ≠ 0 ∧ d.digits % 10 = 0 then
    Scaled.stripped ⟨d.digits / 10, d.exponent + 1⟩
  else d
termination_by d.digits
decreasing_by omega

/-- The shortest decimal that reads back. Seventeen digits always suffice; the exact value
stands behind them. -/
def Magnitude.shortest (tie : Tie) (x : Magnitude) : Scaled :=
  let order := x.order
  let short := (List.range 17).findSome? fun i : Nat => x.onGrid? tie (order - (i : Int))
  (short.getD x.exact).stripped

end SatLab.Decimal
