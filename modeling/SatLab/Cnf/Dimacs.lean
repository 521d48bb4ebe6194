import SatLab.Cnf.Formula
import SatLab.Text.Blank
/-!
The text form of formulas. A problem line `p cnf <variables> <clauses>` is followed by the
literals of the clauses, each clause closed by a 0. Clauses may share and span lines; the
last one may lack its 0. Lines that are blank or start with `c` or `%` are passed over. Of
several problem lines the last one counts, and the number of clauses is not held against it.
-/

set_option autoImplicit false
set_option relaxedAutoImplicit false

namespace SatLab.Dimacs

open SatLab.Text

/-- What the lines read so far have given. -/
structure Progress where
  numVars : Option Nat := none
  -- the finished clauses, last first
  done : List Clause := []
  -- the literals of the unfinished clause, last first
  pending : List Literal := []

def countField (line : Nat) (field : List Char) : Except Error Nat :=
  match count? field with
  | some n => .ok n
  | none => .error (.malformed line (.badCount (String.ofList field)))

def Progress.problem (p : Progress) (line : Nat) (text fields : List Char) :
    Except Error Progress :=
  match words fields with
  | [kind, vars, clauses] => do
    if kind ≠ "cnf".toList then throw (.malformed line (.problemLine (String.ofList text)))
    let n ← countField line vars
    let _ ← countField line clauses
    return { p with numVars := some n }
  | _ => .error (.malformed line (.problemLine (String.ofList text)))

def Progress.token (line : Nat) (p : Progress) (word : List Char) : Except Error Progress :=
  match integer? word with
  | none => .error (.malformed line (.badInteger (String.ofList word)))
  | some value =>
    if value = 0 then .ok { p with done := ⟨p.pending.reverse⟩ :: p.done, pending := [] }
    else match Literal.ofSigned? value with
      | none => .error .zeroLiteral
      | some l => .ok { p with pending := l :: p.pending }

/-- Reads one line, given with its number. -/
def Progress.line (p : Progress) (numbered : List Char × Nat) : Except Error Progress :=
  let text := trim numbered.1
  match text with
  | [] => .ok p
  | 'c' :: _ => .ok p
  | '%' :: _ => .ok p
  | 'p' :: fields => p.problem numbered.2 text fields
  | _ =>
    if p.numVars.isNone then .error (.malformed numbered.2 .earlyClause)
    else (words text).foldlM (Progress.token numbered.2) p

def Progress.clauses (p : Progress) : List Clause :=
  (if p.pending.isEmpty then p.done else ⟨p.pending.reverse⟩ :: p.done).reverse

def Progress.finish (p : Progress) : Except Error Formula :=
  match p.numVars with
  | none => .error (.malformed 0 .noProblemLine)
  | some n => Formula.ofClauses n p.clauses

def parseLines (ls : List (List Char)) : Except Error Formula := do
  (← (ls.zipIdx 1).foldlM Progress.line {}).finish

/-- The formula in a text. -/
def parse (text : String) : Except Error Formula :=
  parseLines (lines text.toList)

def clauseText (c : Clause) : List Char :=
  (c.literals.flatMap fun l => l.digits ++ [' ']) ++ ['0', '\n']

/-- A formula as characters: the problem line, then a line for each clause. -/
def chars (f : Formula) : List Char :=
  "p cnf ".toList ++ digits f.numVars ++ ' ' :: digits f.size ++ '\n' ::
    f.clauses.flatMap clauseText

def render (f : Formula) : String :=
  String.ofList (chars f)

end SatLab.Dimacs
