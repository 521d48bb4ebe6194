import SatLab.Trial.Error
/-!
Why a campaign fails. A stop signal is reported in one way, wherever it was noticed.
-/

set_option autoImplicit false
set_option relaxedAutoImplicit false

namespace SatLab.Campaign

inductive Error
  | unreadable (path : String)
  | malformed
  | cost (cause : Cost.Error)
  | trial (cause : Trial.Error)
  | cancelled
  | workerStopped

namespace Error

/-- The wording of an error. What ends in a colon is followed by a reason from outside. -/
def message : Error → String
  | unreadable path => s!"failed to read config {path}: "
  | malformed => "failed to parse config: "
  | cost cause => cause.message
  | trial cause => cause.message
  | cancelled => "run cancelled"
  | workerStopped => "worker is not running"

def isCancelled : Error → Bool
  | cancelled | cost (.core .cancelled) | trial (.core .cancelled) => true
  | _ => false

/-- The error with a stop signal told in one way. -/
def normalised (e : Error) : Error := if e.isCancelled then cancelled else e

def fault? : Error → Option Fault
  | cost (.core (.fault f)) | trial (.core (.fault f)) => some f
  | _ => none

end Error

end SatLab.Campaign
