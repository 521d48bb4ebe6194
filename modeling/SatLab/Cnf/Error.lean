import SatLab.Word
import SatLab.Decimal.Text
/-!
What formulas, their text form, their generator and the searches on them refuse, and the
wording of each refusal.
-/

set_option autoImplicit false
set_option relaxedAutoImplicit false

namespace SatLab

open Decimal (plain)

/-- What is wrong with a text that should hold a formula. -/
inductive Flaw
  | problemLine (line : String)
  | earlyClause
  | badInteger (token : String)
  | badCount (field : String)
  | noProblemLine
  deriving DecidableEq, Repr

inductive Rejection
  | tooManyVariables (n : Nat)
  | clauseRatio (alpha : Float)
  | assignmentSize (size numVars : Nat)
  | coolingRate (rate : Float)
  | negativeTemperature
  | escapeProbability (p : Float)

inductive Error
  | tooFewVariables (n : Nat)
  | variableOutOfRange (var numVars : Nat)
  | zeroLiteral
  | clauseOutOfRange (index numClauses : Nat)
  -- malformed text; lines are counted from 1, and line 0 is the text as a whole
  | malformed (line : Nat) (flaw : Flaw)
  | rejected (cause : Rejection)
  | cancelled
  | fault (f : Fault)

def Flaw.message : Flaw → String
  | .problemLine line => s!"bad problem line: {line}"
  | .earlyClause => "clause before problem line"
  | .badInteger token => s!"not an integer: {token}"
  | .badCount field => s!"not a count: {field}"
  | .noProblemLine => "missing problem line"

def Rejection.message : Rejection → String
  | .tooManyVariables n => s!"{n} variables exceed the literal range"
  | .clauseRatio alpha => s!"alpha must be finite and >= 0, got {plain alpha}"
  | .assignmentSize size numVars =>
    s!"assignment covers {size} variables, formula has {numVars}"
  | .coolingRate rate => s!"cooling rate must be in (0, 1], got {plain rate}"
  | .negativeTemperature => "temperatures must be non-negative"
  | .escapeProbability p => s!"escape probability must be in [0, 1], got {plain p}"

def Error.message : Error → String
  | .tooFewVariables n => s!"random 3-SAT needs at least 3 variables, got {n}"
  | .variableOutOfRange var numVars =>
    s!"variable {var} out of range for formula over {numVars} variables"
  | .zeroLiteral => "literal 0 is not a valid literal"
  | .clauseOutOfRange index numClauses =>
    s!"clause {index} out of range for formula with {numClauses} clauses"
  | .malformed line flaw => s!"dimacs parse error at line {line}: {flaw.message}"
  | .rejected cause => s!"invalid parameter: {cause.message}"
  | .cancelled => "cancelled"
  | .fault _ => "fault"

/-- Lets a computation that can only break off fail with an error. -/
def Fault.guard {α : Type} (x : Except Fault α) : Except Error α :=
  x.mapError Error.fault

end SatLab
