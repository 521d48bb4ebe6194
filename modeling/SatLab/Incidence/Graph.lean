import SatLab.Cnf.Formula
/-!
The graph of variables and clauses: a variable is linked with the clauses in which it
occurs, once however often it occurs. Variable `v` is node `v - 1`, and the clause at place
`c` is node `numVars + c`.
-/

set_option autoImplicit false
set_option relaxedAutoImplicit false

namespace SatLab.Incidence

/-- How a variable occurs in a clause. -/
inductive Polarity
  | positive
  | negative
  | mixed
  deriving DecidableEq, Repr

namespace Polarity

def name : Polarity → String
  | .positive => "Positive"
  | .negative => "Negative"
  | .mixed => "Mixed"

def sign : Polarity → Int
  | .positive => 1
  | .negative => -1
  | .mixed => 0

instance : Json.Codec Polarity := Json.Codec.ofNames name [.positive, .negative, .mixed]

def ofLiteral (l : Literal) : Polarity := if l.isPositive then .positive else .negative

def join (p q : Polarity) : Polarity := if p = q then p else .mixed

end Polarity

/-- An occurrence of a variable in a clause. -/
structure Edge where
  var : Nat
  clause : Nat
  polarity : Polarity
  deriving DecidableEq, Repr

/-- Adds one literal to the occurrences in a clause, which stand in the order in which their
variables are first seen. -/
def addOccurrence (seen : List (Nat × Polarity)) (l : Literal) : List (Nat × Polarity) :=
  if seen.any fun o => o.1 == l.var then
    seen.map fun o => if o.1 = l.var then (o.1, o.2.join (.ofLiteral l)) else o
  else seen ++ [(l.var, .ofLiteral l)]

/-- The variables of a clause and how they occur. -/
def occurrences (c : Clause) : List (Nat × Polarity) :=
  c.literals.foldl addOccurrence []

/-- The edges of clauses, the first of which is at place `start`. -/
def edgesFrom (start : Nat) (clauses : List Clause) : List Edge :=
  (clauses.zipIdx start).flatMap fun (c, place) =>
    (occurrences c).map fun (v, p) => ⟨v, place, p⟩

/-- The graph of a formula: its edges by clause, and the neighbours of each node. -/
structure Graph where
  numVars : Nat
  numClauses : Nat
  edges : List Edge
  adjacency : Array (Array Nat)
  deriving DecidableEq, Repr

namespace Graph

def numNodes (g : Graph) : Nat := g.numVars + g.numClauses

/-- Links the ends of an edge; a variable that names no node is a fault. -/
def link (numVars : Nat) (adjacency : Array (Array Nat)) (e : Edge) :
    Except Fault (Array (Array Nat)) :=
  if 0 < e.var ∧ e.var ≤ adjacency.size then
    let varNode := e.var - 1
    let clauseNode := numVars + e.clause
    .ok ((adjacency.modify varNode (·.push clauseNode)).modify clauseNode (·.push varNode))
  else .error .outOfRange

def ofFormula (f : Formula) : Except Fault Graph := do
  let edges := edgesFrom 0 f.clauses
  let blank : Array (Array Nat) := Array.replicate (f.numVars + f.size) #[]
  return ⟨f.numVars, f.size, edges, ← edges.foldlM (link f.numVars) blank⟩

def degrees (g : Graph) : List Nat := g.adjacency.toList.map Array.size

end Graph

end SatLab.Incidence
