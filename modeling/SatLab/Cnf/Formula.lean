import SatLab.Cnf.Assignment
import SatLab.Cnf.Error
import SatLab.Json.Record
/-!
Clauses and formulas in conjunctive normal form, what an assignment does to them, and the
reduction of a formula by a literal that is taken to be true. A formula need not be well
formed, since one may be read from outside; evaluation breaks off where it meets a literal
that names no variable.
-/

set_option autoImplicit false
set_option relaxedAutoImplicit false

namespace SatLab

structure Clause where
  literals : List Literal
  deriving DecidableEq, Repr

namespace Clause

/-- The only literal of a clause of one literal. -/
def unit? : Clause → Option Literal
  | ⟨[l]⟩ => some l
  | _ => none

/-- Whether the clause has no literals, so that nothing makes it true. -/
def isEmpty (c : Clause) : Bool := c.literals.isEmpty

/-- Whether the literal stands in the clause with the same polarity. -/
def contains (c : Clause) (l : Literal) : Bool := c.literals.contains l

def without (c : Clause) (l : Literal) : Clause := ⟨c.literals.filter (· != l)⟩

/-- Whether some literal is true. Literals behind the first true one are not looked at. -/
def isSatisfiedBy (c : Clause) (a : Assignment) : Except Fault Bool :=
  c.literals.anyM a.satisfies

theorem isSatisfiedBy_of_covered {c : Clause} {a : Assignment}
    (h : ∀ l ∈ c.literals, 0 < l.var ∧ l.var ≤ a.size) :
    c.isSatisfiedBy a = .ok (decide (∃ l ∈ c.literals, a.Satisfies l)) := by
  rcases c with ⟨ls⟩
  simp only [isSatisfiedBy] at h ⊢
  induction ls with
  | nil => rfl
  | cons l ls ih =>
    have hl := h l List.mem_cons_self
    have ht := ih fun k hk => h k (List.mem_cons_of_mem l hk)
    rw [List.anyM, Assignment.satisfies_of_covered hl.1 hl.2]
    by_cases hs : a.Satisfies l
    · simp [hs, bind, Except.bind, pure, Except.pure]
    · simp [hs, bind, Except.bind, ht]

end Clause

/-- A conjunction of clauses over the variables `1 .. numVars`. -/
structure Formula where
  numVars : Nat
  clauses : List Clause
  deriving DecidableEq, Repr

namespace Formula

/-- A formula is well formed when its literals are valid and name its variables. -/
def WellFormed (f : Formula) : Prop :=
  ∀ c ∈ f.clauses, ∀ l ∈ c.literals, l.Valid ∧ l.var ≤ f.numVars

instance (f : Formula) : Decidable f.WellFormed :=
  inferInstanceAs (Decidable (∀ c ∈ f.clauses, ∀ l ∈ c.literals, l.Valid ∧ l.var ≤ f.numVars))

/-- A model covers exactly the variables of the formula and makes a literal of every
clause true. -/
def IsModel (f : Formula) (a : Assignment) : Prop :=
  a.size = f.numVars ∧ ∀ c ∈ f.clauses, ∃ l ∈ c.literals, a.Satisfies l

def Satisfiable (f : Formula) : Prop := ∃ a, f.IsModel a

def literals (f : Formula) : List Literal := f.clauses.flatMap Clause.literals

/-- The formula of the given clauses, if they name no variable beyond the last. -/
def ofClauses (numVars : Nat) (clauses : List Clause) : Except Error Formula :=
  match (clauses.flatMap Clause.literals).find? fun l => decide (numVars < l.var) with
  | some l => .error (.variableOutOfRange l.var numVars)
  | none => .ok ⟨numVars, clauses⟩

def size (f : Formula) : Nat := f.clauses.length

def clauseRatio (f : Formula) : Float := ratio f.size f.numVars

def hasEmptyClause (f : Formula) : Bool := f.clauses.any Clause.isEmpty

def withClause (f : Formula) (c : Clause) : Except Error Formula :=
  ofClauses f.numVars (f.clauses ++ [c])

/-- The places, counted from `start`, of the clauses that the assignment makes false. -/
def unsatFrom (a : Assignment) (start : Nat) : List Clause → Except Fault (List Nat)
  | [] => .ok []
  | c :: cs => do
    let satisfied ← c.isSatisfiedBy a
    let rest ← unsatFrom a (start + 1) cs
    return if satisfied then rest else start :: rest

/-- The places of the clauses that the assignment makes false, ascending. -/
def unsatClauses (f : Formula) (a : Assignment) : Except Fault (List Nat) :=
  unsatFrom a 0 f.clauses

def countUnsat (f : Formula) (a : Assignment) : Except Fault Nat :=
  (f.unsatClauses a).map List.length

/-- Whether the assignment makes every clause true. Clauses behind the first false one are
not looked at. -/
def isSatisfiedBy (f : Formula) (a : Assignment) : Except Fault Bool :=
  f.clauses.allM (·.isSatisfiedBy a)

/-- What is left of the formula when a literal is true: the clauses without it, and in
these no occurrence of its opposite. -/
def reduce (f : Formula) (l : Literal) : Except Fault Formula := do
  let opposite ← l.opposite
  return ⟨f.numVars, (f.clauses.filter (!·.contains l)).map (·.without opposite)⟩

/-- Reduces by one literal after the other. -/
def reduceAll (f : Formula) (ls : List Literal) : Except Fault Formula :=
  ls.foldlM reduce f

def bump {α : Type} [Add α] (amount : Literal → α) (table : Array α) (l : Literal) :
    Except Fault (Array α) := do
  let i ← l.index
  if h : i < table.size then return table.set i (table[i] + amount l)
  throw .outOfRange

def degree (f : Formula) (v : Nat) : Nat := f.literals.countP fun l => l.var = v

/-- Looks up the entry of a literal's variable in a table of the given size. -/
def lookUp (size : Nat) (l : Literal) : Except Fault Unit := do
  if size ≤ (← l.index) then throw .outOfRange

/-- Looks up every literal in a table of the variables. -/
def lookUpAll (f : Formula) : Except Fault Unit := forM f.literals (lookUp f.numVars)

/-- The number of occurrences of each variable. -/
def degrees (f : Formula) : Except Fault (Array Nat) :=
  f.literals.foldlM (bump fun _ => 1) (Array.replicate f.numVars 0)

/-- Positive minus negative occurrences of each variable. -/
def bias (f : Formula) : Except Fault (Array Int) :=
  f.literals.foldlM (bump fun l => if l.isPositive then 1 else -1)
    (Array.replicate f.numVars 0)

def activeVars (f : Formula) : Except Fault (List Nat) := do
  return ((← f.degrees).toList.zipIdx 1).filterMap fun (d, v) => if 0 < d then some v else none

theorem WellFormed.covered {f : Formula} (h : f.WellFormed) {a : Assignment}
    (hs : a.size = f.numVars) {c : Clause} (hc : c ∈ f.clauses) :
    ∀ l ∈ c.literals, 0 < l.var ∧ l.var ≤ a.size :=
  fun l hl => ⟨(h c hc l hl).1.var_pos, hs ▸ (h c hc l hl).2⟩

instance (f : Formula) (a : Assignment) : Decidable (f.IsModel a) :=
  inferInstanceAs (Decidable (a.size = f.numVars ∧
    ∀ c ∈ f.clauses, ∃ l ∈ c.literals, a.Satisfies l))

/-- Evaluating a well-formed formula under an assignment to its variables tells whether the
assignment is a model. -/
theorem isSatisfiedBy_of_wellFormed {f : Formula} (h : f.WellFormed) {a : Assignment}
    (hs : a.size = f.numVars) : f.isSatisfiedBy a = .ok (decide (f.IsModel a)) := by
  have hm : f.IsModel a ↔ ∀ c ∈ f.clauses, ∃ l ∈ c.literals, a.Satisfies l := by
    simp [IsModel, hs]
  have hc := fun (c : Clause) (hc : c ∈ f.clauses) => h.covered hs hc
  simp only [hm, isSatisfiedBy]
  generalize f.clauses = cs at hc
  induction cs with
  | nil => rfl
  | cons c cs ih =>
    have ht := ih (fun d hd => hc d (List.mem_cons_of_mem c hd))
    rw [List.allM, Clause.isSatisfiedBy_of_covered (hc c List.mem_cons_self)]
    by_cases hs : ∃ l ∈ c.literals, a.Satisfies l
    · simp [hs, bind, Except.bind, ht]
    · simp [hs, bind, Except.bind, pure, Except.pure]

theorem ofClauses_eq_ok_iff {n : Nat} {cs : List Clause} {f : Formula} :
    ofClauses n cs = .ok f ↔ (∀ c ∈ cs, ∀ l ∈ c.literals, l.var ≤ n) ∧ f = ⟨n, cs⟩ := by
  rw [ofClauses]
  split
  · next l hl =>
    have hm := List.mem_of_find?_eq_some hl
    have hp := List.find?_some hl
    simp only [List.mem_flatMap] at hm
    obtain ⟨c, hc, hlc⟩ := hm
    simp only [decide_eq_true_eq] at hp
    simp only [reduceCtorEq, false_iff, not_and]
    intro hall
    have := hall c hc l hlc
    omega
  · next hn =>
    simp only [List.find?_eq_none, List.mem_flatMap, decide_eq_true_eq, Nat.not_lt] at hn
    constructor
    · intro h
      cases h
      exact ⟨fun c hc l hl => hn l ⟨c, hc, hl⟩, rfl⟩
    · rintro ⟨-, rfl⟩
      rfl

theorem reduce_of_valid {f : Formula} {l : Literal} (h : l.Valid) :
    f.reduce l = .ok ⟨f.numVars, (f.clauses.filter (!·.contains l)).map (·.without (-l))⟩ := by
  rw [reduce, Literal.opposite_of_valid h]
  rfl

theorem WellFormed.of_reduce {f g : Formula} {l : Literal} (h : f.WellFormed)
    (hg : f.reduce l = .ok g) : g.WellFormed := by
  rw [reduce] at hg
  cases ho : l.opposite with
  | error e => rw [ho] at hg; cases hg
  | ok o =>
    rw [ho] at hg
    cases hg
    intro c hc k hk
    simp only [List.mem_map, List.mem_filter] at hc
    obtain ⟨d, ⟨hd, -⟩, rfl⟩ := hc
    exact h d hd k (List.mem_filter.mp hk).1

end Formula

/-- A literal is a whole number in its JSON form; every 32-bit number is taken. -/
instance : Json.Codec Literal where
  encode l := .whole l.value
  decode
    | .whole i => if -0x80000000 ≤ i ∧ i < 0x80000000 then some ⟨i⟩ else none
    | _ => none

instance : Json.Codec Clause where
  encode c := Json.encode c.literals
  decode j := (Json.decode j).map Clause.mk

/-- The fields of a formula. They are read without a check of the literals. -/
def Formula.record : Json.Record Formula where
  base := ⟨0, []⟩
  hasDefaults := false
  fields :=
    [ .of "num_vars" Formula.numVars fun v s => { s with numVars := v },
      .of "clauses" Formula.clauses fun v s => { s with clauses := v } ]

instance : Json.Codec Formula := Formula.record.codec

end SatLab
