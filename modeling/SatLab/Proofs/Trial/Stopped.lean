import SatLab.Backbone.Pruning
import SatLab.Backbone.SizeTrend
import SatLab.Incidence.Correlation
import SatLab.Landscape.EnergyTail
import SatLab.Landscape.Hysteresis
import SatLab.Landscape.Rigidity
import SatLab.Proofs.Search.Stopped
/-!
Experiments on instances under a stop signal. All but the pruning look at the signal behind each
search; the pruning looks at it once, behind all it does.
-/

set_option autoImplicit false
set_option relaxedAutoImplicit false

namespace SatLab

open SatLab.Task
open SatLab.Random (WordSource)

section Annealing

open Annealing

variable {σ : Type} [WordSource σ]

theorem Annealing.Walk.extend_steady {f : Formula} {schedule : Schedule} {budget : Nat}
    {w : Walk} {s : σ} : (Walk.extend f schedule budget w s).Steady .cancelled := by
  induction budget generalizing w s with
  | zero => exact steady_pure _
  | succ budget ih =>
    refine steady_check.bind fun _ => (steady_lift _).bind fun outcome => ?_
    cases outcome with
    | alreadySatisfied => exact steady_pure _
    | moved m => exact ih

theorem Annealing.annealFrom_steady {f : Formula} {a : Assignment} {schedule : Schedule} {s : σ} :
    (annealFrom f a schedule s).Steady .cancelled :=
  (steady_lift _).bind fun _ => steady_guard <| (steady_lift _).bind fun _ =>
    Walk.extend_steady.bind fun _ => steady_pure _

theorem Annealing.anneal_steady {f : Formula} {schedule : Schedule} {s : σ} :
    (anneal f schedule s).Steady .cancelled :=
  annealFrom_steady

end Annealing

theorem Trial.Instance.anneal_steady {i : Trial.Instance} {f : Formula}
    {schedule : Annealing.Schedule} {stream : Uniform.Seed} :
    (i.anneal f schedule stream).Steady (.core .cancelled) :=
  (Annealing.anneal_steady.bind fun _ => steady_pure _).mapError _

theorem Trial.solve_yielding (limit : Nat) (f : Formula) : (Trial.solve limit f).Yielding :=
  (Search.solve_yielding limit f).mapError _

theorem Landscape.energyTail_steady {c : Landscape.TailConfig} :
    (Landscape.energyTail c).Steady (.core .cancelled) :=
  steady_guard <| (steady_lift _).bind fun _ => Trial.Instance.anneal_steady.bind fun _ =>
    (steady_lift _).bind fun _ => steady_pure _

theorem Landscape.hysteresis_steady {c : Landscape.HysteresisConfig} :
    (Landscape.hysteresis c).Steady (.core .cancelled) :=
  steady_guard <| (steady_lift _).bind fun _ => Trial.Instance.anneal_steady.bind fun _ =>
    Trial.Instance.anneal_steady.bind fun _ => steady_pure _

theorem Landscape.rigidityTest_steady {c : Landscape.RigidityConfig} :
    (Landscape.rigidityTest c).Steady (.core .cancelled) :=
  (steady_lift _).bind fun _ => (steady_lift _).bind fun _ =>
    Trial.Instance.anneal_steady.bind fun _ => steady_pure _

section Prediction

open Backbone

private theorem Backbone.BackboneSource.groundTruth_steady {σ : Type} [WordSource σ]
    {source : BackboneSource} {f : Formula} {s : σ} :
    (source.groundTruth f s).Steady .cancelled := by
  cases source with
  | annealing schedule frozenFraction =>
    exact Annealing.anneal_steady.bind fun _ => steady_pure _
  | exact limit => exact (Search.backbone_steady limit f).bind fun _ => steady_pure _

private theorem Backbone.predictOn_steady {inst : Trial.Instance} {c : PredictionConfig} :
    (predictOn inst c).Steady (.core .cancelled) :=
  (steady_lift _).bind fun _ => (BackboneSource.groundTruth_steady.mapError _).bind fun _ =>
    (steady_lift _).bind fun _ => steady_pure _

theorem Backbone.predictionTest_steady {c : PredictionConfig} :
    (predictionTest c).Steady (.core .cancelled) :=
  predictOn_steady

private theorem Backbone.sampleAccuracies_steady {base : PredictionConfig} {samples : Nat} :
    (sampleAccuracies base samples).Steady (.core .cancelled) :=
  (steady_mapM fun _ => predictOn_steady).bind fun _ => steady_pure _

theorem Backbone.universalityTest_steady {c : UniversalityConfig} :
    (universalityTest c).Steady (.core .cancelled) :=
  steady_guard <| sampleAccuracies_steady.bind fun _ => steady_pure _

private theorem Backbone.accuracyAt_steady {c : TrendConfig} {n number : Nat} :
    (accuracyAt c n number).Steady (.core .cancelled) := by
  refine sampleAccuracies_steady.bind fun accuracies => ?_
  split <;> exact steady_pure _

theorem Backbone.sizeTrend_steady {c : TrendConfig} :
    (sizeTrend c).Steady (.core .cancelled) :=
  steady_guard <| (steady_mapM fun _ => accuracyAt_steady).bind fun _ =>
    (steady_lift _).bind fun _ => steady_pure _

end Prediction

section Correlation

open Incidence

private theorem Incidence.sampleGap_steady {c : GapConfig} {index : Nat} :
    (sampleGap c index).Steady (.core .cancelled) := by
  refine (steady_lift _).bind fun f => ((Search.backbone_steady _ _).mapError _).bind fun _ => ?_
  split
  · exact steady_pure _
  · exact (steady_lift _).bind fun _ => (steady_lift _).bind fun _ => steady_pure _

theorem Incidence.correlateGap_steady {c : GapConfig} :
    (correlateGap c).Steady (.core .cancelled) :=
  steady_guard <| (steady_mapM fun _ => sampleGap_steady).bind fun _ => steady_pure _

end Correlation

end SatLab
