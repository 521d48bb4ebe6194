import SatLab.Json.Record
/-!
Least-squares fits of growth laws. An exponential law `a * e^(b n)` is a line in `n` and the
logarithm of the cost, a power law `a * n^b` a line in the logarithms of both; the quality of
a fit is measured on these lines.
-/

set_option autoImplicit false
set_option relaxedAutoImplicit false

namespace SatLab.Cost

inductive FitError
  | tooFewPoints (count : Nat)
  | lengthMismatch (x y : Nat)
  | nonPositive
  | degenerate
  deriving DecidableEq, Repr

def FitError.message : FitError → String
  | .tooFewPoints count => s!"need at least 2 points, got {count}"
  | .lengthMismatch x y => s!"x has {x} values but y has {y}"
  | .nonPositive => "log-linear fit needs strictly positive samples"
  | .degenerate => "all x values are identical"

structure Line where
  slope : Float
  intercept : Float
  rSquared : Float

def Line.predict (l : Line) (x : Float) : Float := l.slope * x + l.intercept

/-- The sum of the squares of the first coordinates, of the products, and of the squares of
the second coordinates. -/
def secondMoments (points : List (Float × Float)) : Float × Float × Float :=
  points.foldl (fun (xx, xy, yy) (x, y) => (xx + x * x, xy + x * y, yy + y * y)) (0.0, 0.0, 0.0)

/-- The line that minimises the squared vertical distances. A flat line through points of
one height explains them in full. -/
def fitLine (xs ys : List Float) : Except FitError Line :=
  if xs.length ≠ ys.length then .error (.lengthMismatch xs.length ys.length)
  else if xs.length < 2 then .error (.tooFewPoints xs.length)
  else
    let n := toReal xs.length
    let meanX := sumReals xs / n
    let meanY := sumReals ys / n
    let (sxx, sxy, syy) := secondMoments ((xs.zip ys).map fun (x, y) => (x - meanX, y - meanY))
    if sxx == 0.0 then .error .degenerate
    else
      let slope := sxy / sxx
      let rSquared := if syy == 0.0 then 1.0 else smaller (sxy * sxy / (sxx * syy)) 1.0
      .ok { slope, intercept := meanY - slope * meanX, rSquared }

/-- A fitted law with a factor `a` and a rate or an exponent `b`. -/
structure Law where
  a : Float
  b : Float
  rSquared : Float

def Line.toLaw (l : Line) : Law := ⟨l.intercept.exp, l.slope, l.rSquared⟩

def Law.exponentialAt (l : Law) (n : Float) : Float := l.a * (l.b * n).exp

def Law.powerAt (l : Law) (n : Float) : Float := l.a * Float.pow n l.b

def fitExponential (points : List (Float × Float)) : Except FitError Law :=
  if points.any fun (_, y) => y ≤ 0.0 then .error .nonPositive
  else (fitLine (points.map (·.1)) (points.map (·.2.log))).map Line.toLaw

def fitPower (points : List (Float × Float)) : Except FitError Law :=
  if points.any fun (n, y) => n ≤ 0.0 || y ≤ 0.0 then .error .nonPositive
  else (fitLine (points.map (·.1.log)) (points.map (·.2.log))).map Line.toLaw

inductive Growth
  | exponential
  | polynomial
  deriving DecidableEq, Repr

namespace Growth

def name : Growth → String
  | .exponential => "Exponential"
  | .polynomial => "Polynomial"

def describe : Growth → String
  | .exponential => "exponential growth: cost multiplies per added variable"
  | .polynomial => "polynomial growth: cost follows a power law in n"

instance : Json.Codec Growth := Json.Codec.ofNames name [.exponential, .polynomial]

end Growth

/-- Both laws fitted to the same points. -/
structure Comparison where
  exponential : Law
  power : Law
  -- the law that explains more; the exponential one when they explain the same
  preferred : Growth

def Comparison.gap (c : Comparison) : Float := c.exponential.rSquared - c.power.rSquared

def compareLaws (points : List (Float × Float)) : Except FitError Comparison := do
  let exponential ← fitExponential points
  let power ← fitPower points
  let preferred :=
    if power.rSquared ≤ exponential.rSquared then Growth.exponential else .polynomial
  return { exponential, power, preferred }

instance : Json.Codec Line := Json.Record.codec
  { base := ⟨0.0, 0.0, 0.0⟩
    hasDefaults := false
    fields :=
      [ .of "slope" Line.slope fun v s => { s with slope := v },
        .of "intercept" Line.intercept fun v s => { s with intercept := v },
        .of "r_squared" Line.rSquared fun v s => { s with rSquared := v } ] }

instance : Json.Codec Law := Json.Record.codec
  { base := ⟨0.0, 0.0, 0.0⟩
    hasDefaults := false
    fields :=
      [ .of "a" Law.a fun v s => { s with a := v },
        .of "b" Law.b fun v s => { s with b := v },
        .of "r_squared" Law.rSquared fun v s => { s with rSquared := v } ] }

instance : Json.Codec Comparison := Json.Record.codec
  { base := ⟨⟨0.0, 0.0, 0.0⟩, ⟨0.0, 0.0, 0.0⟩, .exponential⟩
    hasDefaults := false
    fields :=
      [ .of "exponential" Comparison.exponential fun v s => { s with exponential := v },
        .of "power" Comparison.power fun v s => { s with power := v },
        .of "preferred" Comparison.preferred fun v s => { s with preferred := v } ] }

end SatLab.Cost
