import SatLab.Search.Stack
/-!
The backbone of a formula: the variables with the same value in every model. Starting from
one model, each variable is forced to its opposite value; if that leaves no model, the
variable is frozen. A further model found on the way also frees every variable that has
not been classified and on which the two models differ.
-/

set_option autoImplicit false
set_option relaxedAutoImplicit false

namespace SatLab.Search

/-- What is known about a variable. -/
inductive Status
  | frozen (value : Bool)
  | free
  -- the search for a model with the opposite value was inconclusive
  | undetermined
  deriving DecidableEq, Repr

/-- What is known about the backbone. -/
structure BackboneReport where
  -- whether there is a model; `none` when the first search was inconclusive
  satisfiable : Option Bool
  model : Option Assignment
  -- one entry for each variable if there is a model, else none
  statuses : List Status
  totalSteps : Nat
  deriving DecidableEq, Repr

namespace BackboneReport

def frozen (r : BackboneReport) : List (Nat × Bool) :=
  (r.statuses.zipIdx 1).filterMap fun
    | (.frozen b, v) => some (v, b)
    | _ => none

def undetermined (r : BackboneReport) : List Nat :=
  (r.statuses.zipIdx 1).filterMap fun
    | (.undetermined, v) => some v
    | _ => none

def frozenFraction (r : BackboneReport) : Float :=
  ratio r.frozen.length r.statuses.length

end BackboneReport

/-- The classification under way: a status for each variable classified so far, in order. -/
structure Survey where
  statuses : Array (Option Status)
  totalSteps : Nat
  deriving DecidableEq

namespace Survey

/-- Frees every unclassified variable on which two models differ. -/
def freeDifferences (statuses : Array (Option Status)) (model other : Assignment) :
    Array (Option Status) :=
  statuses.mapIdx fun i s =>
    if s.isNone && other.values[i]? != model.values[i]? then some .free else s

/-- Classifies a variable by a search for a model in which it has its opposite value. -/
def classify (limit : Nat) (f : Formula) (model : Assignment) (s : Survey) (var : Nat) :
    Task Error Survey := do
  match s.statuses[var - 1]? with
  | some none => do
    Task.check .cancelled
    let opposite ← Task.lift (Fault.guard (do (← model.literalOf var).opposite))
    let strengthened ← Task.lift (f.withClause ⟨[opposite]⟩)
    let found ← Task.mapError Error.fault (solve limit strengthened)
    Task.check .cancelled
    let totalSteps ← Task.lift (Fault.guard (addCounters s.totalSteps found.steps))
    let value ← Task.lift (Fault.guard (model.value var))
    let (statuses, status) := match found.outcome with
      | .unsatisfiable => (s.statuses, Status.frozen value)
      | .inconclusive => (s.statuses, .undetermined)
      | .satisfiable other => (freeDifferences s.statuses model other, .free)
    return ⟨statuses.setIfInBounds (var - 1) (some status), totalSteps⟩
  | _ => return s

end Survey

/-- Classifies the variables of a formula with at most `limit` steps for each search. -/
def backbone (limit : Nat) (f : Formula) : Task Error BackboneReport := do
  Task.check .cancelled
  let first ← Task.mapError Error.fault (solve limit f)
  Task.check .cancelled
  match first.outcome with
  | .unsatisfiable => return ⟨some false, none, [], first.steps⟩
  | .inconclusive => return ⟨none, none, [], first.steps⟩
  | .satisfiable model =>
    let degrees ← Task.lift (Fault.guard f.degrees)
    let start : Survey :=
      ⟨degrees.map fun d => if d = 0 then some .free else none, first.steps⟩
    let survey ←
      (List.range' 1 (lowHalf f.numVars)).foldlM (Survey.classify limit f model) start
    let statuses := survey.statuses.toList.map fun s => s.getD .undetermined
    return ⟨some true, some model, statuses, survey.totalSteps⟩

/-- A status is written as its name, a frozen one with its value. -/
instance : Json.Codec Status where
  encode
    | .frozen b => Json.fields [("Frozen", .bool b)]
    | .free => .string "Free"
    | .undetermined => .string "Undetermined"
  decode j := do
    match ← Json.caseOf? j with
    | ("Frozen", some b) => return .frozen (← Json.decode b)
    | ("Free", none) | ("Free", some .null) => return .free
    | ("Undetermined", none) | ("Undetermined", some .null) => return .undetermined
    | _ => none

instance : Json.Codec BackboneReport := Json.Record.codec
  { base := ⟨none, none, [], 0⟩
    hasDefaults := false
    fields :=
      [ .of "satisfiable" BackboneReport.satisfiable fun v s => { s with satisfiable := v },
        .of "model" BackboneReport.model fun v s => { s with model := v },
        .of "statuses" BackboneReport.statuses fun v s => { s with statuses := v },
        .of "total_steps" BackboneReport.totalSteps fun v s => { s with totalSteps := v } ] }

end SatLab.Search
