import SatLab.Word
import SatLab.Text.Numeral
/-!
Literals are signed whole numbers: the size is the variable, counted from 1, and the sign
is the polarity. A literal read from outside need not be valid; the valid ones are those
over a variable that fits 31 bits.
-/

set_option autoImplicit false
set_option relaxedAutoImplicit false

namespace SatLab

def maxVar : Nat := 0x80000000 - 1

/-- A variable or its negation, in its signed form. -/
structure Literal where
  value : Int
  deriving DecidableEq, Repr

namespace Literal

def var (l : Literal) : Nat := l.value.natAbs

def isPositive (l : Literal) : Bool := decide (0 < l.value)

/-- A literal is valid when it names a variable that fits 31 bits. -/
def Valid (l : Literal) : Prop := l.value ≠ 0 ∧ l.var ≤ maxVar

instance (l : Literal) : Decidable l.Valid :=
  inferInstanceAs (Decidable (l.value ≠ 0 ∧ l.var ≤ maxVar))

instance : Neg Literal where
  neg l := ⟨-l.value⟩

def index (l : Literal) : Except Fault Nat :=
  if l.var = 0 then .error .outOfRange else .ok (l.var - 1)

/-- The opposite literal. The least 32-bit number has no opposite. -/
def opposite (l : Literal) : Except Fault Literal :=
  if l.value = -0x80000000 then .error .overflow else .ok (-l)

def ofVar (var : Nat) (positive : Bool) : Except Fault Literal :=
  if 0 < var ∧ var ≤ maxVar then .ok ⟨if positive then var else -(var : Int)⟩
  else .error .outOfRange

def ofSigned? (value : Int) : Option Literal :=
  if value = 0 ∨ value = -0x80000000 then none else some ⟨value⟩

def le (k l : Literal) : Bool := decide (k.value ≤ l.value)

def digits (l : Literal) : List Char := SatLab.Text.signedDigits l.value

theorem var_neg (l : Literal) : (-l).var = l.var := by
  simp only [var, Neg.neg]
  exact Int.natAbs_neg l.value

theorem Valid.var_pos {l : Literal} (h : l.Valid) : 0 < l.var :=
  Int.natAbs_pos.mpr h.1

theorem Valid.neg {l : Literal} (h : l.Valid) : (-l).Valid :=
  ⟨fun e => h.1 (Int.neg_eq_zero.mp e), by rw [var_neg]; exact h.2⟩

theorem isPositive_neg {l : Literal} (h : l.Valid) : (-l).isPositive = !l.isPositive := by
  have h0 := h.1
  have e : (-l).value = -l.value := rfl
  simp only [isPositive, e, ← decide_not, decide_eq_decide]
  omega

theorem opposite_of_valid {l : Literal} (h : l.Valid) : l.opposite = .ok (-l) := by
  have h1 := h.2
  simp only [var, maxVar] at h1
  rw [opposite, if_neg (by omega)]

theorem index_of_valid {l : Literal} (h : l.Valid) : l.index = .ok (l.var - 1) := by
  rw [index, if_neg (Nat.ne_of_gt h.var_pos)]

theorem ofVar_of_valid {l : Literal} (h : l.Valid) : ofVar l.var l.isPositive = .ok l := by
  have h0 := h.1
  rw [ofVar, if_pos ⟨h.var_pos, h.2⟩, Except.ok.injEq]
  apply congrArg mk
  simp only [isPositive, var, decide_eq_true_eq]
  split <;> omega

theorem ofSigned?_eq_some_iff {value : Int} {l : Literal} :
    ofSigned? value = some l ↔ (value ≠ 0 ∧ value ≠ -0x80000000) ∧ l = ⟨value⟩ := by
  rw [ofSigned?]
  split
  · simp_all
    omega
  · simp_all [eq_comm]

end Literal

end SatLab
