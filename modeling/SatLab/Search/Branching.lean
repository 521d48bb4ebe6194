import SatLab.Cnf.Formula
/-!
The branching rule: the literal that occurs most often, and of several such the one that
is seen first in clause order. Occurrences are counted by polarity, repetitions included.
-/

set_option autoImplicit false
set_option relaxedAutoImplicit false

namespace SatLab.Search

/-- Occurrence counts, two places for each variable, and the literals seen, last first. -/
structure Tally where
  counts : Array Nat
  seen : List Literal

/-- The place of a literal: even for the variable itself, odd for its negation. -/
def slot (l : Literal) : Except Fault Nat := do
  return 2 * (← l.index) + if l.isPositive then 0 else 1

namespace Tally

def add (t : Tally) (l : Literal) : Except Fault Tally := do
  let i ← slot l
  let ⟨counts, seen⟩ := t
  if h : i < counts.size then
    let n := counts[i]
    return ⟨counts.set i (n + 1), if n = 0 then l :: seen else seen⟩
  throw .outOfRange

def ofFormula (f : Formula) : Except Fault Tally :=
  f.literals.foldlM add ⟨Array.replicate (2 * f.numVars) 0, []⟩

def count (t : Tally) (l : Literal) : Except Fault Nat := do
  match t.counts[← slot l]? with
  | some n => return n
  | none => throw .outOfRange

/-- Keeps the literal with the larger count, the earlier one when the counts agree. -/
def better (t : Tally) (best : Option (Literal × Nat)) (l : Literal) :
    Except Fault (Option (Literal × Nat)) := do
  let n ← t.count l
  match best with
  | none => return some (l, n)
  | some (k, m) => return some (if m < n then (l, n) else (k, m))

end Tally

/-- The literal to branch on; none when no clause holds a literal. -/
def branchLiteral? (f : Formula) : Except Fault (Option Literal) := do
  let t ← Tally.ofFormula f
  return (← t.seen.reverse.foldlM t.better none).map Prod.fst

end SatLab.Search
