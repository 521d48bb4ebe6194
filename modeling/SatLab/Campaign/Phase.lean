import SatLab.Json.Codec
/-!
The experiments of a campaign, in the order in which they run.
-/

set_option autoImplicit false
set_option relaxedAutoImplicit false

namespace SatLab.Campaign

inductive Phase
  | alphaScan
  | energyTail
  | hysteresis
  | rigidity
  | sizeScan
  | stress
  | extrapolation
  | zones
  | pruning
  | prediction
  | universality
  | sizeTrend
  | gapCorrelation
  deriving DecidableEq, Repr

namespace Phase

def all : List Phase :=
  [alphaScan, energyTail, hysteresis, rigidity, sizeScan, stress, extrapolation, zones,
   pruning, prediction, universality, sizeTrend, gapCorrelation]

def key : Phase → String
  | alphaScan => "macro_scan"
  | energyTail => "variance"
  | hysteresis => "hysteresis"
  | rigidity => "autopsy"
  | sizeScan => "scaling"
  | stress => "stress"
  | extrapolation => "confirmation"
  | zones => "boundary"
  | pruning => "millennium_search"
  | prediction => "generalization"
  | universality => "universality"
  | sizeTrend => "adversarial"
  | gapCorrelation => "spectral"

def title : Phase → String
  | alphaScan => "macro scan"
  | energyTail => "energy variance"
  | hysteresis => "hysteresis"
  | rigidity => "structural autopsy"
  | sizeScan => "scaling analysis"
  | stress => "stress test"
  | extrapolation => "exponential confirmation"
  | zones => "complexity boundary"
  | pruning => "millennium search"
  | prediction => "topological generalization"
  | universality => "universality"
  | sizeTrend => "adversarial scaling"
  | gapCorrelation => "spectral gap"

def index (p : Phase) : Nat := all.idxOf p

theorem mem_all (p : Phase) : p ∈ all := by
  cases p <;> decide

theorem index_injective {p q : Phase} (h : p.index = q.index) : p = q := by
  have all : ∀ p ∈ all, ∀ q ∈ all, p.index = q.index → p = q := by decide
  exact all p (mem_all p) q (mem_all q) h

instance : Json.Codec Phase := Json.Codec.ofNames key all

end Phase

end SatLab.Campaign
