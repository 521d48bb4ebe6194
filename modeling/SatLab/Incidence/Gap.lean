import SatLab.Incidence.Graph
import SatLab.Incidence.Vector
import SatLab.Random.KeyStream
import SatLab.Trial.Error
/-!
The spectral gap of a graph: the second smallest eigenvalue of its normalised Laplacian
`L = 1 - D^(-1/2) A D^(-1/2)`, found by power iteration on `2 - L` beside the trivial
eigenvector `D^(1/2) 1`.
-/

set_option autoImplicit false
set_option relaxedAutoImplicit false

namespace SatLab.Incidence

open SatLab.Random (Draw)

structure GapSolver where
  maxIterations : Nat := 20000
  tolerance : Float := 1e-7

structure SpectralGap where
  value : Float
  iterations : Nat
  converged : Bool

/-- The spacing of doubles at one. -/
def epsilon : Float := 2.220446049250313e-16

def startSeed : UInt64 := 0x5eedf1ed

/-- Holds a number between two bounds; what is no number stays so. -/
def clamp (x low high : Float) : Float :=
  if x < low then low else if high < x then high else x

/-- The operator `2 - L` of a graph and its trivial eigenvector. -/
structure ShiftedOperator where
  adjacency : Array (Array Nat)
  inverseRoots : RealVector
  -- the trivial eigenvector, of length one unless it is zero
  trivial : RealVector

namespace ShiftedOperator

def ofGraph (g : Graph) : ShiftedOperator :=
  let degrees := RealVector.tabulate g.numNodes fun i =>
    toReal ((g.adjacency[i]?.map Array.size).getD 0)
  let roots := degrees.map Float.sqrt
  let length := roots.norm
  { adjacency := g.adjacency
    inverseRoots := degrees.map fun d => if d == 0.0 then 0.0 else 1.0 / d.sqrt
    trivial := if 0.0 < length then roots.divide length else roots }

/-- The image of a vector. A node without neighbours is doubled. -/
def apply (op : ShiftedOperator) (x : RealVector) : RealVector :=
  let scaled := RealVector.tabulate x.size fun i => op.inverseRoots.entry i * x.entry i
  .tabulate x.size fun i =>
    match op.adjacency[i]? with
    | some neighbours =>
      if neighbours.isEmpty then 2.0 * x.entry i
      else
        let spread := neighbours.foldl (fun sum j => sum + scaled.entry j) (-0.0)
        x.entry i + op.inverseRoots.entry i * spread
    | none => 2.0 * x.entry i

def applyDeflated (op : ShiftedOperator) (x : RealVector) : RealVector :=
  (op.apply x).deflate op.trivial

end ShiftedOperator

/-- Iterates at most `budget` further times; `theta` is the last estimate of the largest
eigenvalue. The iteration also ends when the image vanishes: then all eigenvalues of `L`
left are two. -/
def iterate (op : ShiftedOperator) (tolerance : Float) :
    (budget done : Nat) → (theta : Float) → RealVector → SpectralGap
  | 0, done, theta, _ => ⟨clamp (2.0 - theta) 0.0 2.0, done, false⟩
  | budget + 1, done, _, x =>
    let y := op.applyDeflated x
    let theta := x.dot y
    let residual := RealVector.norm
      (.tabulate y.size fun i => y.entry i - theta * x.entry i)
    let length := y.norm
    if residual ≤ tolerance || length ≤ epsilon then
      ⟨clamp (if length ≤ epsilon then 2.0 else 2.0 - theta) 0.0 2.0, done + 1, true⟩
    else iterate op tolerance budget (done + 1) theta (y.divide length)

def startVector (n : Nat) : RealVector :=
  (n.fold (fun _ _ (x, s) =>
      let (a, s) := (Random.symmetricReal : Draw Random.KeyStream Float) s
      (FloatArray.push x a, s))
    (FloatArray.emptyWithCapacity n, Random.KeyStream.ofSeed startSeed)).1

/-- Estimates the gap of a graph. -/
def spectralGap (g : Graph) (solver : GapSolver) : Except Trial.Error SpectralGap := do
  if solver.maxIterations = 0 || solver.tolerance.isNaN || solver.tolerance ≤ 0.0 then
    throw (.rejected (.gapSolver solver.maxIterations solver.tolerance))
  let nodes := g.numNodes
  if nodes < 2 then throw (.rejected (.tooFewNodes nodes))
  let op := ShiftedOperator.ofGraph g
  let start := (startVector nodes).deflate op.trivial
  let length := start.norm
  if length ≤ epsilon then throw (.rejected .startVanished)
  return iterate op solver.tolerance solver.maxIterations 0 0.0 (start.divide length)

instance : Json.Codec GapSolver := Json.Record.codec
  { base := {}
    hasDefaults := true
    fields :=
      [ .of "max_iterations" GapSolver.maxIterations fun v s => { s with maxIterations := v },
        .of "tolerance" GapSolver.tolerance fun v s => { s with tolerance := v } ] }

instance : Json.Codec SpectralGap := Json.Record.codec
  { base := ⟨0.0, 0, false⟩
    hasDefaults := false
    fields :=
      [ .of "value" SpectralGap.value fun v s => { s with value := v },
        .of "iterations" SpectralGap.iterations fun v s => { s with iterations := v },
        .of "converged" SpectralGap.converged fun v s => { s with converged := v } ] }

end SatLab.Incidence
