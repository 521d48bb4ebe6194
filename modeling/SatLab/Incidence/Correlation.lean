import SatLab.Incidence.Gap
import SatLab.Search.Backbone
import SatLab.Trial.Instance
/-!
The correlation of spectral gap and rigidity over random instances. The rigidity is the
share of the variables that is frozen; instances without a model, and those whose backbone
is not known in full, are left out.
-/

set_option autoImplicit false
set_option relaxedAutoImplicit false

namespace SatLab.Incidence

open Trial (Instance)

/-- The correlation of two series; none when they are too short, of different lengths or
constant. -/
def correlation? (xs ys : List Float) : Option Float :=
  if xs.length ≠ ys.length ∨ xs.length < 2 then none
  else
    let n := toReal xs.length
    let meanX := sumReals xs / n
    let meanY := sumReals ys / n
    let (sxx, sxy, syy) :=
      Cost.secondMoments ((xs.zip ys).map fun (x, y) => (x - meanX, y - meanY))
    if sxx ≤ 0.0 || syy ≤ 0.0 then none
    else some (clamp (sxy / (sxx * syy).sqrt) (-1.0) 1.0)

/-- Whether the gap tells the rigidity. -/
inductive GapVerdict
  | significant
  | weak
  | insufficient
  deriving DecidableEq, Repr

namespace GapVerdict

def name : GapVerdict → String
  | .significant => "Significant"
  | .weak => "Weak"
  | .insufficient => "Insufficient"

def describe : GapVerdict → String
  | .significant => "significant: the spectral gap tracks backbone rigidity"
  | .weak => "weak: the spectral gap says little about rigidity"
  | .insufficient => "insufficient: not enough samples to correlate"

instance : Json.Codec GapVerdict := Json.Codec.ofNames name [.significant, .weak, .insufficient]

end GapVerdict

structure GapConfig where
  n : Nat := 40
  alpha : Float := 4.26
  seed : Uniform.Seed := 0
  samples : Nat := 10
  stepLimit : Nat := 1000000
  solver : GapSolver := {}
  significantCorrelation : Float := 0.5
  parallel : Bool := true

def GapVerdict.judge (correlation : Option Float) (c : GapConfig) : GapVerdict :=
  match correlation with
  | none => .insufficient
  | some r => if c.significantCorrelation < r.abs then .significant else .weak

structure GapSample where
  index : Nat
  rigidity : Float
  gap : SpectralGap

structure GapResult where
  n : Nat
  alpha : Float
  attempted : Nat
  samples : List GapSample
  correlation : Option Float
  verdict : GapVerdict

def gapOn (inst : Instance) (c : GapConfig) (index : Nat) :
    Task Trial.Error (Option GapSample) := do
  let f ← Task.lift inst.formula
  let report ← Task.mapError .core (Search.backbone c.stepLimit f)
  if report.satisfiable ≠ some true || !report.undetermined.isEmpty then return none
  let graph ← Trial.sound (Graph.ofFormula f)
  let gap ← Task.lift (spectralGap graph c.solver)
  return some ⟨index, toReal report.frozen.length / toReal c.n, gap⟩

def sampleGap (c : GapConfig) (index : Nat) : Task Trial.Error (Option GapSample) :=
  gapOn ((⟨c.n, c.alpha, c.seed⟩ : Instance).nth index.toUInt64) c index

def correlateGap (c : GapConfig) : Task Trial.Error GapResult := do
  if c.samples = 0 then throw (.rejected .noCorrelationSamples)
  let samples := (← (List.range c.samples).mapM (sampleGap c)).filterMap id
  let correlation := correlation? (samples.map (·.rigidity)) (samples.map (·.gap.value))
  return {
    n := c.n
    alpha := c.alpha
    attempted := c.samples
    samples, correlation
    verdict := .judge correlation c }

instance : Json.Codec GapConfig := Json.Record.codec
  { base := {}
    hasDefaults := true
    fields :=
      [ .of "n" GapConfig.n fun v s => { s with n := v },
        .of "alpha" GapConfig.alpha fun v s => { s with alpha := v },
        .of "seed" GapConfig.seed fun v s => { s with seed := v },
        .of "samples" GapConfig.samples fun v s => { s with samples := v },
        .of "step_limit" GapConfig.stepLimit fun v s => { s with stepLimit := v },
        .of "solver" GapConfig.solver fun v s => { s with solver := v },
        .of "significant_correlation" GapConfig.significantCorrelation
          fun v s => { s with significantCorrelation := v },
        .of "parallel" GapConfig.parallel fun v s => { s with parallel := v } ] }

instance : Json.Codec GapSample := Json.Record.codec
  { base := ⟨0, 0.0, ⟨0.0, 0, false⟩⟩
    hasDefaults := false
    fields :=
      [ .of "index" GapSample.index fun v s => { s with index := v },
        .of "rigidity" GapSample.rigidity fun v s => { s with rigidity := v },
        .of "gap" GapSample.gap fun v s => { s with gap := v } ] }

instance : Json.Codec GapResult := Json.Record.codec
  { base := ⟨0, 0.0, 0, [], none, .insufficient⟩
    hasDefaults := false
    fields :=
      [ .of "n" GapResult.n fun v s => { s with n := v },
        .of "alpha" GapResult.alpha fun v s => { s with alpha := v },
        .of "attempted" GapResult.attempted fun v s => { s with attempted := v },
        .of "samples" GapResult.samples fun v s => { s with samples := v },
        .of "correlation" GapResult.correlation fun v s => { s with correlation := v },
        .of "verdict" GapResult.verdict fun v s => { s with verdict := v } ] }

end SatLab.Incidence
