import SatLab.Word
/-!
Vectors of doubles. The order of the additions in a product of vectors is part of its
meaning, since it decides the rounding.
-/

set_option autoImplicit false
set_option relaxedAutoImplicit false

namespace SatLab.Incidence

abbrev RealVector := FloatArray

namespace RealVector

def entry (x : RealVector) (i : Nat) : Float :=
  if h : i < x.size then x[i] else 0.0

def tabulate (n : Nat) (f : Nat → Float) : RealVector :=
  n.fold (fun i _ x => x.push (f i)) (FloatArray.emptyWithCapacity n)

/-- The sum, from zero, of the products at the places `lane`, `lane + 8`, ... of the first
`rounds` of them. -/
def laneSum (x y : RealVector) (rounds lane : Nat) : Float :=
  rounds.fold (fun i _ sum => sum + x.entry (8 * i + lane) * y.entry (8 * i + lane)) 0.0

/-- The product of two vectors: eight lanes are summed apart and joined in pairs, and the
places behind the last full round are added one by one. -/
def dot (x y : RealVector) : Float :=
  let n := min x.size y.size
  let rounds := n / 8
  let lane := laneSum x y rounds
  let joined := [0, 1, 2, 3].foldl (fun sum k => sum + (lane k + lane (k + 4))) 0.0
  (n - 8 * rounds).fold
    (fun i _ sum => sum + x.entry (8 * rounds + i) * y.entry (8 * rounds + i)) joined

def norm (x : RealVector) : Float := (x.dot x).sqrt

def addScaled (x : RealVector) (a : Float) (y : RealVector) : RealVector :=
  tabulate x.size fun i => x.entry i + a * y.entry i

def deflate (x unit : RealVector) : RealVector := x.addScaled (-(x.dot unit)) unit

def divide (x : RealVector) (a : Float) : RealVector :=
  tabulate x.size fun i => x.entry i / a

def map (x : RealVector) (f : Float → Float) : RealVector :=
  tabulate x.size fun i => f (x.entry i)

end RealVector

end SatLab.Incidence
