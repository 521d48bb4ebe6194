import SatLab.Decimal.Shortest
import SatLab.Text.Numeral
/-!
Decimal text of doubles: with the fewest digits that read back, with a fixed number of
places, or with a fixed number of significant digits. Rounding to places or digits rounds
the exact binary value, and an exact half goes to the even neighbour.
-/

set_option autoImplicit false
set_option relaxedAutoImplicit false

namespace SatLab.Decimal

/-- How the shortest digits of a number are laid out. -/
structure Layout where
  plainFrom : Int
  plainBelow : Int
  pointZero : Bool
  tie : Tie

/-- Puts the sign and the names of the values that are no numbers around the text of a size. -/
def signed (body : Magnitude → String) (x : Float) : String :=
  if x.isNaN then "NaN"
  else
    let bits := x.toBits
    let text := if x.isInf then "inf" else body (.ofBits bits)
    if bits >>> 63 = 1 then "-" ++ text else text

/-- Digits with a point after the first `point` of them, filled with zeros where needed. -/
def pointed (ds : List Char) (point : Int) (pointZero : Bool) : List Char :=
  if point ≤ 0 then '0' :: '.' :: (List.replicate (-point).toNat '0' ++ ds)
  else if (ds.length : Int) ≤ point then
    ds ++ List.replicate (point.toNat - ds.length) '0' ++ (if pointZero then ['.', '0'] else [])
  else ds.take point.toNat ++ '.' :: ds.drop point.toNat

/-- Digits with a point after the first, and the point left out when nothing follows. -/
def leading : List Char → List Char
  | [] => []
  | [d] => [d]
  | d :: ds => d :: '.' :: ds

def Layout.body (l : Layout) (x : Magnitude) : String :=
  if x.mantissa = 0 then String.ofList (pointed ['0'] 1 l.pointZero)
  else
    let d := x.shortest l.tie
    let ds := SatLab.Text.digits d.digits
    let order := (ds.length : Int) + d.exponent - 1
    if l.plainFrom ≤ order ∧ order < l.plainBelow then
      String.ofList (pointed ds (order + 1) l.pointZero)
    else
      let sign := if order < 0 then "e" else "e+"
      String.ofList (leading ds) ++ sign ++ String.ofList (SatLab.Text.signedDigits order)

def Layout.render (l : Layout) (x : Float) : String :=
  signed l.body x

/-- Messages write numbers positionally at every size, whole numbers without a point. -/
def messageLayout : Layout where
  plainFrom := -400
  plainBelow := 400
  pointZero := false
  tie := .awayFromZero

def plain (x : Float) : String :=
  messageLayout.render x

/-- The text of a number with a fixed number of places, at least one. -/
def fixed (places : Nat) (x : Float) : String :=
  signed (fun m =>
    let (num, den) := m.over (-(places : Int))
    let ds := SatLab.Text.digits (roundDiv .toEven num den)
    let padded := List.replicate (places + 1 - ds.length) '0' ++ ds
    String.ofList (pointed padded ((padded.length : Int) - places) false)) x

/-- The text of a number with a fixed count of significant digits and an exponent. -/
def scientific (count : Nat) (x : Float) : String :=
  signed (fun m =>
    if m.mantissa = 0 then String.ofList (leading (List.replicate count '0')) ++ "e0"
    else
      let order := m.order
      let (num, den) := m.over (order + 1 - (count : Int))
      let r := roundDiv .toEven num den
      -- rounding up can carry into one more digit
      let (r, order) := if Nat.pow 10 count ≤ r then (r / 10, order + 1) else (r, order)
      String.ofList (leading (SatLab.Text.digits r)) ++ "e"
        ++ String.ofList (SatLab.Text.signedDigits order)) x

end SatLab.Decimal
