import SatLab.Search.Backbone
import SatLab.Trial.Instance
/-!
Prediction of a backbone from the degrees of the variables. The prediction has the size of
the backbone and takes the variables that occur most often; its accuracy is the share of
the backbone that it hits.
-/

set_option autoImplicit false
set_option relaxedAutoImplicit false

namespace SatLab.Backbone

open SatLab.Random (WordSource)
open Trial (Instance)

/-- The backbone that a prediction is held against. -/
structure GroundTruth where
  backbone : List Nat
  undetermined : List Nat
  deriving DecidableEq, Repr

/-- Where such a backbone comes from. -/
inductive BackboneSource
  | annealing (schedule : Annealing.Schedule) (frozenFraction : Float)
  | exact (stepLimit : Nat)

namespace BackboneSource

def usual : BackboneSource := .annealing (.slow 5000) Trial.usualFrozenFraction

def groundTruth {σ : Type} [WordSource σ] (source : BackboneSource) (f : Formula) :
    StateT σ (Task SatLab.Error) GroundTruth := fun s => do
  match source with
  | .annealing schedule frozenFraction =>
    let (run, s) ← Annealing.anneal f schedule s
    return (⟨run.frozenVars frozenFraction, []⟩, s)
  | .exact stepLimit =>
    let report ← Search.backbone stepLimit f
    return (⟨report.frozen.map Prod.fst, report.undetermined⟩, s)

end BackboneSource

/-- Degrees rank higher degrees first, and lower variables among equal degrees. -/
def rankedBefore (x y : Nat × Nat) : Bool :=
  y.1 < x.1 || (x.1 == y.1 && x.2 ≤ y.2)

/-- The variables of the highest degrees, ascending. Their number is cast to half a word, so that of
more variables only the first are ranked. A degree is counted when it is ranked: a table of all of
them would be as long as the formula says, whatever is left by the cast. -/
def predict (f : Formula) (size : Nat) : Except Fault (List Nat) := do
  f.lookUpAll
  let table := (List.range' 1 (lowHalf f.numVars)).map fun v => (f.degree v, v)
  return (((table.mergeSort rankedBefore).take size).map Prod.snd).mergeSort (· ≤ ·)

/-- How many of the predicted variables are right, and which share of the backbone that is. -/
def overlap (predicted truth : List Nat) : Nat × Float :=
  if truth.isEmpty then (0, 0.0)
  else
    let hits := predicted.countP truth.contains
    (hits, ratio hits truth.length)

/-- What degrees say about a backbone. -/
inductive Leak
  | leakDetected
  | weakCorrelation
  | cryptographicBackbone
  | noBackbone
  deriving DecidableEq, Repr

namespace Leak

def name : Leak → String
  | .leakDetected => "LeakDetected"
  | .weakCorrelation => "WeakCorrelation"
  | .cryptographicBackbone => "CryptographicBackbone"
  | .noBackbone => "NoBackbone"

def describe : Leak → String
  | .leakDetected => "leak detected: variable degree predicts the backbone"
  | .weakCorrelation => "weak correlation: degree predicts part of the backbone"
  | .cryptographicBackbone =>
    "cryptographic backbone: structure does not reveal the frozen variables"
  | .noBackbone => "no backbone: nothing to predict"

instance : Json.Codec Leak := Json.Codec.ofNames name
  [.leakDetected, .weakCorrelation, .cryptographicBackbone, .noBackbone]

def ofAccuracy (accuracy leakAccuracy weakAccuracy : Float) : Leak :=
  if leakAccuracy < accuracy then .leakDetected
  else if weakAccuracy ≤ accuracy then .weakCorrelation
  else .cryptographicBackbone

end Leak

structure PredictionConfig where
  n : Nat := 50
  alpha : Float := 4.26
  seed : Uniform.Seed := 0
  groundTruth : BackboneSource := .usual
  leakAccuracy : Float := 0.7
  weakAccuracy : Float := 0.4

namespace PredictionConfig

def exact (c : PredictionConfig) (stepLimit : Nat) : PredictionConfig :=
  { c with groundTruth := .exact stepLimit }

def withInstance (c : PredictionConfig) (n : Nat) (seed : Uniform.Seed) : PredictionConfig :=
  { c with n, seed }

def toInstance (c : PredictionConfig) : Instance := ⟨c.n, c.alpha, c.seed⟩

end PredictionConfig

/-- A prediction of as many variables as the backbone has. The accuracy is the share of the backbone
that it hits. -/
structure PredictionResult where
  n : Nat
  alpha : Float
  groundTruth : List Nat
  undetermined : Nat
  predicted : List Nat
  overlap : Nat
  accuracy : Float
  diagnosis : Leak

/-- Predicts the backbone of an instance. -/
def predictOn (inst : Instance) (c : PredictionConfig) : Task Trial.Error PredictionResult := do
  let f ← Task.lift inst.formula
  let (truth, _) ← Task.mapError .core (c.groundTruth.groundTruth f (inst.searchSource 0))
  let predicted ← Trial.sound (predict f truth.backbone.length)
  let (overlap, accuracy) := Backbone.overlap predicted truth.backbone
  return {
    n := inst.n
    alpha := inst.alpha
    groundTruth := truth.backbone
    undetermined := truth.undetermined.length
    predicted, overlap, accuracy
    diagnosis :=
      if truth.backbone.isEmpty then .noBackbone
      else .ofAccuracy accuracy c.leakAccuracy c.weakAccuracy }

def predictionTest (c : PredictionConfig) : Task Trial.Error PredictionResult :=
  predictOn c.toInstance c

def annealingRecord : Json.Record (Annealing.Schedule × Float) where
  base := ({}, 0.0)
  hasDefaults := false
  fields :=
    [ .of "anneal" Prod.fst fun v s => (v, s.2),
      .of "frozen_fraction" Prod.snd fun v s => (s.1, v) ]

def exactRecord : Json.Record Nat where
  base := 0
  hasDefaults := false
  fields := [.of "step_limit" id fun v _ => v]

instance : Json.Codec BackboneSource where
  encode
    | .annealing schedule frozenFraction =>
      Json.fields [("Annealing", annealingRecord.encode (schedule, frozenFraction))]
    | .exact stepLimit => Json.fields [("Exact", exactRecord.encode stepLimit)]
  decode j := do
    match ← Json.caseOf? j with
    | ("Annealing", some parts) =>
      let (schedule, frozenFraction) ← annealingRecord.decode parts
      return .annealing schedule frozenFraction
    | ("Exact", some parts) => return .exact (← exactRecord.decode parts)
    | _ => none

instance : Json.Codec GroundTruth := Json.Record.codec
  { base := ⟨[], []⟩
    hasDefaults := false
    fields :=
      [ .variables "backbone" GroundTruth.backbone fun v s => { s with backbone := v },
        .variables "undetermined" GroundTruth.undetermined
          fun v s => { s with undetermined := v } ] }

instance : Json.Codec PredictionConfig := Json.Record.codec
  { base := {}
    hasDefaults := true
    fields :=
      [ .of "n" PredictionConfig.n fun v s => { s with n := v },
        .of "alpha" PredictionConfig.alpha fun v s => { s with alpha := v },
        .of "seed" PredictionConfig.seed fun v s => { s with seed := v },
        .of "ground_truth" PredictionConfig.groundTruth
          fun v s => { s with groundTruth := v },
        .of "leak_accuracy" PredictionConfig.leakAccuracy
          fun v s => { s with leakAccuracy := v },
        .of "weak_accuracy" PredictionConfig.weakAccuracy
          fun v s => { s with weakAccuracy := v } ] }

instance : Json.Codec PredictionResult := Json.Record.codec
  { base := ⟨0, 0.0, [], 0, [], 0, 0.0, .noBackbone⟩
    hasDefaults := false
    fields :=
      [ .of "n" PredictionResult.n fun v s => { s with n := v },
        .of "alpha" PredictionResult.alpha fun v s => { s with alpha := v },
        .variables "ground_truth" PredictionResult.groundTruth
          fun v s => { s with groundTruth := v },
        .of "undetermined" PredictionResult.undetermined
          fun v s => { s with undetermined := v },
        .variables "predicted" PredictionResult.predicted
          fun v s => { s with predicted := v },
        .of "overlap" PredictionResult.overlap fun v s => { s with overlap := v },
        .of "accuracy" PredictionResult.accuracy fun v s => { s with accuracy := v },
        .of "diagnosis" PredictionResult.diagnosis fun v s => { s with diagnosis := v } ] }

end SatLab.Backbone
