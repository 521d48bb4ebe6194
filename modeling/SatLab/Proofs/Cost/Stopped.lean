import SatLab.Cost.AlphaScan
import SatLab.Cost.Extrapolation
import SatLab.Cost.Zones
import SatLab.Proofs.Search.Stopped
/-!
Measurements of search cost under a stop signal. The signal is looked at behind each search, so
that no search that was cut short is counted.
-/

set_option autoImplicit false
set_option relaxedAutoImplicit false

namespace SatLab.Cost

open SatLab.Task
open SatLab.Uniform (Seed)

theorem Totals.extend_steady {n : Nat} {alpha : Float} {limit : Nat} {seed : Seed}
    {remaining number : Nat} {t : Totals} :
    (extend n alpha limit seed remaining number t).Steady (.core .cancelled) := by
  induction remaining generalizing number t with
  | zero => exact steady_pure t
  | succ remaining ih =>
    refine (steady_lift _).bind fun f => ?_
    refine ((Search.solve_yielding limit f).mapError _).bind_check fun r => ?_
    exact (steady_lift _).bind fun _ => ih

theorem measure_steady {n : Nat} {alpha : Float} {samples limit : Nat} {seed : Seed} :
    (measure n alpha samples limit seed).Steady (.core .cancelled) :=
  steady_guard (Totals.extend_steady.bind fun _ => steady_pure _)

theorem sweepSizes_steady {alpha : Float} {sizes : List Nat} {samples : Nat} {budget : StepBudget}
    {seed : Seed} : (sweepSizes alpha sizes samples budget seed).Steady (.core .cancelled) :=
  steady_mapM fun _ => measure_steady

theorem sweepAlphas_steady {n : Nat} {alphas : List Float} {samples limit : Nat} {seed : Seed} :
    (sweepAlphas n alphas samples limit seed).Steady (.core .cancelled) :=
  steady_mapM fun _ => measure_steady

theorem scan_steady (c : ScanConfig) : (scan c).Steady (.core .cancelled) := by
  refine (steady_lift _).bind fun alphas => sweepAlphas_steady.bind fun samples => ?_
  dsimp only
  cases peak? ScanPoint.avgSteps (samples.map CostSample.scanPoint) with
  | some p => exact steady_pure _
  | none => exact steady_throw _

theorem scanSizes_steady (c : GrowthConfig) : (scanSizes c).Steady (.core .cancelled) :=
  (steady_lift _).bind fun _ => sweepSizes_steady.bind fun _ =>
    (steady_lift _).bind fun _ => steady_pure _

theorem stressTest_steady (c : StressConfig) : (stressTest c).Steady (.core .cancelled) :=
  (steady_lift _).bind fun _ => sweepSizes_steady.bind fun _ =>
    (steady_lift _).bind fun _ => steady_pure _

theorem extrapolate_steady (c : ExtrapolationConfig) : (extrapolate c).Steady (.core .cancelled) :=
  (steady_lift _).bind fun _ => steady_guard <| sweepSizes_steady.bind fun _ =>
    (steady_lift _).bind fun _ => measure_steady.bind fun _ => steady_pure _

theorem mapZones_steady (c : ZoneConfig) : (mapZones c).Steady (.core .cancelled) := by
  refine steady_guard <| (steady_lift _).bind fun alphas => ?_
  refine sweepAlphas_steady.bind fun samples => ?_
  dsimp only
  cases peak? ZonePoint.branchingFactor (samples.map (·.zonePoint c)) with
  | some p => exact steady_pure _
  | none => exact steady_throw _

end SatLab.Cost
