import SatLab.Cnf.Formula
import SatLab.Random.KeyStream
/-!
Uniform random 3-CNF. A clause has three distinct variables, drawn without order, and then
an even choice of polarity for each; clauses are drawn independently, so one may repeat.
-/

set_option autoImplicit false
set_option relaxedAutoImplicit false

namespace SatLab.Uniform

open SatLab.Random (WordSource Draw)

abbrev Seed := UInt64

def seedStride : Seed := 0x9E3779B97F4A7C15

def deriveSeed (base stream : Seed) : Seed :=
  base + stream * seedStride

/-- Streams under one base seed have different seeds: the stride is odd, so it has an inverse
among the words. -/
theorem deriveSeed_injective {base i j : Seed} (h : deriveSeed base i = deriveSeed base j) :
    i = j := by
  have inverse : seedStride * 0xF1DE83E19937733D = 1 := by decide
  have e : i * seedStride = j * seedStride := by
    simpa [deriveSeed] using h
  calc i = i * seedStride * 0xF1DE83E19937733D := by rw [UInt64.mul_assoc, inverse, UInt64.mul_one]
    _ = j := by rw [e, UInt64.mul_assoc, inverse, UInt64.mul_one]

/-- The number of clauses nearest to a clause ratio, half away from zero. -/
def clauseCount (n : Nat) (alpha : Float) : Nat :=
  nearest (toReal n * alpha)

variable {σ : Type} [WordSource σ]

def drawLiteral (place : Nat) : Draw σ Literal := do
  let positive ← Random.coin
  return ⟨if positive then (place : Int) + 1 else -((place : Int) + 1)⟩

/-- Draws a clause over the variables `1 .. n`. -/
def drawClause (n : Nat) : Draw σ Clause := do
  let places ← Random.sampleThree n
  return ⟨← places.mapM drawLiteral⟩

/-- Draws clauses, `done` of which, last first, have been drawn. -/
def drawClauses (n : Nat) : Nat → List Clause → Draw σ (List Clause)
  | 0, done => return done.reverse
  | m + 1, done => do
    let c ← drawClause n
    drawClauses n m (c :: done)

/-- Draws a formula of `m` clauses over `n` variables. -/
def generate (n m : Nat) : StateT σ (Except Error) Formula := fun s =>
  if n < 3 then .error (.tooFewVariables n)
  else if maxVar < n then .error (.rejected (.tooManyVariables n))
  else
    let (clauses, s) := drawClauses n m [] s
    .ok (⟨n, clauses⟩, s)

def generateAt (n : Nat) (alpha : Float) : StateT σ (Except Error) Formula := fun s =>
  if !alpha.isFinite || alpha < 0.0 then .error (.rejected (.clauseRatio alpha))
  else generate n (clauseCount n alpha) s

def ofSeed (n : Nat) (alpha : Float) (seed : Seed) : Except Error Formula :=
  (generateAt n alpha (Random.KeyStream.ofSeed seed)).map Prod.fst

def drawAssignment (n : Nat) : Draw σ Assignment := do
  return ⟨(← (List.replicate n ()).mapM fun _ => Random.bit).toArray⟩

end SatLab.Uniform
