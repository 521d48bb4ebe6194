import SatLab.Campaign.Settings
/-!
Ready-made parameters by name. Those of experiments on instances are made for a given
instance; those that depend on a number of steps or on a cooling rate take them as well.
-/

set_option autoImplicit false
set_option relaxedAutoImplicit false

namespace SatLab.Campaign

/-- What ready-made parameters may depend on: those of an experiment on one instance repeat its
size, its clause ratio and its seed. -/
structure Occasion where
  inst : Trial.Instance
  steps : Nat
  coolingRate : Float

def Occasion.tail (o : Occasion) : Landscape.TailConfig :=
  { n := o.inst.n, alpha := o.inst.alpha, seed := o.inst.seed }

def Occasion.hysteresis (o : Occasion) : Landscape.HysteresisConfig :=
  { n := o.inst.n, alpha := o.inst.alpha, seed := o.inst.seed }

def Occasion.rigidity (o : Occasion) : Landscape.RigidityConfig :=
  { n := o.inst.n, alpha := o.inst.alpha, seed := o.inst.seed }

def Occasion.prune (o : Occasion) : Backbone.PruneConfig :=
  { n := o.inst.n, alpha := o.inst.alpha, seed := o.inst.seed }

def Occasion.prediction (o : Occasion) : Backbone.PredictionConfig :=
  { n := o.inst.n, alpha := o.inst.alpha, seed := o.inst.seed }

def Occasion.gap (o : Occasion) : Incidence.GapConfig :=
  { n := o.inst.n, alpha := o.inst.alpha, seed := o.inst.seed }

def catalogue (o : Occasion) : List (String × Json) :=
  [ ("anneal", Json.encode ({} : Annealing.Schedule)),
    ("anneal_fast", Json.encode (Annealing.Schedule.fast o.steps)),
    ("anneal_slow", Json.encode (Annealing.Schedule.slow o.steps)),
    ("anneal_with", Json.encode { Annealing.Schedule.fast o.steps with
      coolingRate := o.coolingRate, acceptance := .usualLenient }),
    ("acceptance", Json.encode [Annealing.Acceptance.metropolis, .usualLenient]),
    ("macro", Json.encode ({} : Cost.ScanConfig)),
    ("macro_fast", Json.encode Cost.ScanConfig.fast),
    ("scaling", Json.encode ({} : Cost.GrowthConfig)),
    ("scaling_fast", Json.encode Cost.GrowthConfig.fast),
    ("stress", Json.encode ({} : Cost.StressConfig)),
    ("stress_thorough", Json.encode Cost.StressConfig.thorough),
    ("confirmation", Json.encode ({} : Cost.ExtrapolationConfig)),
    ("confirmation_fast", Json.encode Cost.ExtrapolationConfig.fast),
    ("boundary", Json.encode ({} : Cost.ZoneConfig)),
    ("variance", Json.encode o.tail),
    ("hysteresis", Json.encode o.hysteresis),
    ("hysteresis_deep", Json.encode o.hysteresis.deepScan),
    ("autopsy", Json.encode o.rigidity),
    ("autopsy_strict", Json.encode o.rigidity.strict),
    ("prune", Json.encode o.prune),
    ("generalization", Json.encode o.prediction),
    ("generalization_exact", Json.encode (o.prediction.exact o.steps)),
    ("generalization_instance",
      Json.encode (({} : Backbone.PredictionConfig).withInstance o.inst.n o.inst.seed)),
    ("universality", Json.encode ({ base := o.prediction } : Backbone.UniversalityConfig)),
    ("adversarial", Json.encode ({} : Backbone.TrendConfig)),
    ("spectral", Json.encode o.gap),
    ("gap_solver", Json.encode ({} : Incidence.GapSolver)),
    ("instance", Json.encode o.inst),
    ("engine", Json.encode ({} : Settings)),
    ("engine_fast", Json.encode Settings.fast) ]

end SatLab.Campaign
