import SatLab.Cnf.Literal
import SatLab.Json.Codec
/-!
Total truth assignments. Variable `v` stands at place `v - 1`; looking up the variable 0
or one that is not covered is a fault.
-/

set_option autoImplicit false
set_option relaxedAutoImplicit false

namespace SatLab

/-- A truth value for each of the variables `1 .. size`. -/
structure Assignment where
  values : Array Bool
  deriving DecidableEq, Repr

namespace Assignment

def size (a : Assignment) : Nat := a.values.size

def allFalse (n : Nat) : Assignment := ⟨Array.replicate n false⟩

def value (a : Assignment) (var : Nat) : Except Fault Bool :=
  if h : 0 < var ∧ var ≤ a.values.size then .ok (a.values[var - 1])
  else .error .outOfRange

def set (a : Assignment) (var : Nat) (b : Bool) : Except Fault Assignment :=
  if h : 0 < var ∧ var ≤ a.values.size then .ok ⟨a.values.set (var - 1) b⟩
  else .error .outOfRange

def flip (a : Assignment) (var : Nat) : Except Fault Assignment :=
  if h : 0 < var ∧ var ≤ a.values.size then .ok ⟨a.values.set (var - 1) (!a.values[var - 1])⟩
  else .error .outOfRange

def satisfies (a : Assignment) (l : Literal) : Except Fault Bool :=
  (a.value l.var).map (· == l.isPositive)

def literalOf (a : Assignment) (var : Nat) : Except Fault Literal := do
  Literal.ofVar var (← a.value var)

def distance (a b : Assignment) : Nat :=
  (a.values.zip b.values).countP fun p => p.1 != p.2

/-- Agreement of an assignment with a literal, as a proposition: the variable is covered
and has the value that makes the literal true. -/
def Satisfies (a : Assignment) (l : Literal) : Prop :=
  0 < l.var ∧ a.values[l.var - 1]? = some l.isPositive

instance (a : Assignment) (l : Literal) : Decidable (a.Satisfies l) :=
  inferInstanceAs (Decidable (0 < l.var ∧ a.values[l.var - 1]? = some l.isPositive))

theorem value_eq_ok_iff {a : Assignment} {var : Nat} {b : Bool} :
    a.value var = .ok b ↔ 0 < var ∧ a.values[var - 1]? = some b := by
  rw [value]
  split
  · next h =>
    have : var - 1 < a.values.size := by omega
    simp [h.1, Array.getElem?_eq_getElem this]
  · next h =>
    simp only [reduceCtorEq, false_iff, not_and]
    intro h0 h1
    have := (Array.getElem?_eq_some_iff.mp h1).1
    omega

theorem satisfies_eq_true_iff {a : Assignment} {l : Literal} :
    a.satisfies l = .ok true ↔ a.Satisfies l := by
  rw [Satisfies, ← value_eq_ok_iff, satisfies]
  cases a.value l.var with
  | error e => simp [Except.map]
  | ok b => simp [Except.map]

theorem satisfies_of_covered {a : Assignment} {l : Literal} (h : 0 < l.var)
    (h' : l.var ≤ a.size) : a.satisfies l = .ok (decide (a.Satisfies l)) := by
  have hi : l.var - 1 < a.values.size := by simp only [size] at h'; omega
  have hv : a.value l.var = .ok a.values[l.var - 1] :=
    value_eq_ok_iff.mpr ⟨h, Array.getElem?_eq_getElem hi⟩
  have hs : a.Satisfies l ↔ a.values[l.var - 1] = l.isPositive := by
    simp [Satisfies, h, Array.getElem?_eq_getElem hi]
  rw [satisfies, hv]
  simp only [Except.map, hs, Except.ok.injEq]
  exact Bool.beq_eq_decide_eq _ _

theorem size_of_set {a a' : Assignment} {var : Nat} {b : Bool} (h : a.set var b = .ok a') :
    a'.size = a.size := by
  rw [set] at h
  split at h
  · cases h; simp [size]
  · cases h

theorem size_of_flip {a a' : Assignment} {var : Nat} (h : a.flip var = .ok a') :
    a'.size = a.size := by
  rw [flip] at h
  split at h
  · cases h; simp [size]
  · cases h

theorem getElem?_of_set {a a' : Assignment} {var : Nat} {b : Bool} (h : a.set var b = .ok a')
    (i : Nat) : a'.values[i]? = if i = var - 1 then some b else a.values[i]? := by
  rw [set] at h
  split at h
  · cases h
    simp only [Array.getElem?_set, eq_comm]
  · cases h

instance : Json.Codec Assignment where
  encode a := Json.encode a.values
  decode j := (Json.decode j).map Assignment.mk

end Assignment

end SatLab
