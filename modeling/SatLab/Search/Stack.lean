import SatLab.Control.Signal
import SatLab.Search.Branching
import SatLab.Search.Outcome
/-!
Exact search by branching and unit propagation, on an explicit stack. A frame on the stack
is a formula still to be examined: a parent formula and the literal to take as true in it.
Examining a frame is one step. The search ends with the first formula without clauses, with
an empty stack, at the step limit, or when the stop signal fires.
-/

set_option autoImplicit false
set_option relaxedAutoImplicit false

namespace SatLab.Search

structure Frame where
  parent : Formula
  -- the literal to take as true, none at the root
  decision : Option Literal
  -- the literals taken as true so far, the decision included, last first
  trail : List Literal
  deriving DecidableEq, Repr

namespace Frame

def root (f : Formula) : Frame := ⟨f, none, []⟩

def formula (fr : Frame) : Except Fault Formula :=
  match fr.decision with
  | none => .ok fr.parent
  | some l => fr.parent.reduce l

def child (fr : Frame) (f : Formula) (l : Literal) : Frame := ⟨f, some l, l :: fr.trail⟩

end Frame

/-- The assignment that makes the literals of a trail true and all other variables false. -/
def modelOfTrail (n : Nat) (trail : List Literal) : Except Fault Assignment :=
  trail.foldrM (fun l a => a.set l.var l.isPositive) (.allFalse n)

/-- What examining a frame shows. -/
inductive Expansion
  | model (a : Assignment)
  | conflict
  | next (frames : List Frame)
  deriving DecidableEq, Repr

/-- Examines a frame of a search over `n` variables. A unit clause leaves one frame; else the
branching literal leaves two, with the literal true in the first. -/
def Frame.expand (n : Nat) (fr : Frame) : Except Fault Expansion := do
  let f ← fr.formula
  if f.clauses.isEmpty then return .model (← modelOfTrail n fr.trail)
  if f.hasEmptyClause then return .conflict
  match f.clauses.findSome? Clause.unit? with
  | some l => return .next [fr.child f l]
  | none =>
    match ← branchLiteral? f with
    | some l => return .next [fr.child f l, fr.child f (← l.opposite)]
    | none => return .next []

/-- A search under way, with the frames to be examined, the next one first. -/
structure State where
  stack : List Frame
  steps : Nat
  backtracks : Nat
  deriving DecidableEq, Repr

namespace State

def start (f : Formula) : State := ⟨[.root f], 0, 0⟩

def result (s : State) (outcome : Outcome) : Result := ⟨outcome, s.steps, s.backtracks⟩

/-- Examines the next frame `fr`, with `rest` below it: the search goes on or ends. -/
def step (n : Nat) (s : State) (fr : Frame) (rest : List Frame) :
    Except Fault (State ⊕ Result) := do
  match ← fr.expand n with
  | .model a => return .inr ⟨.satisfiable a, s.steps + 1, s.backtracks⟩
  | .conflict => return .inl ⟨rest, s.steps + 1, s.backtracks + 1⟩
  | .next frames => return .inl ⟨frames ++ rest, s.steps + 1, s.backtracks⟩

/-- Runs the search for at most `budget` further steps. A step count beyond the word is a
fault. -/
def run (n : Nat) (budget : Nat) (s : State) : Task Fault Result := do
  match s.stack with
  | [] => return s.result .unsatisfiable
  | fr :: rest =>
    if ← Task.poll then return s.result .inconclusive
    match budget with
    | 0 =>
      if wordBound ≤ s.steps + 1 then throw .overflow
      return s.result .inconclusive
    | budget + 1 =>
      match ← Task.lift (s.step n fr rest) with
      | .inl next => run n budget next
      | .inr r => return r

end State

/-- Searches for a model within a step limit. -/
def solve (limit : Nat) (f : Formula) : Task Fault Result :=
  (State.start f).run f.numVars limit

/-- The step limit of a search that is not to be limited. -/
def noLimit : Nat := wordBound - 1

end SatLab.Search
