/-!
Stop signals and tasks that poll them. A signal is seen only through its polls, and once
it has answered yes it keeps answering yes; so a signal is the number of polls it still
answers with no. A task threads the signal through its polls and may end in an error.
-/

set_option autoImplicit false
set_option relaxedAutoImplicit false

namespace SatLab

structure Signal where
  -- polls still answered with no, or `none` when the signal never fires
  quietPolls : Option Nat
  deriving DecidableEq, Repr

namespace Signal

def never : Signal := ⟨none⟩

def fired : Signal := ⟨some 0⟩

def isFired (s : Signal) : Bool :=
  s.quietPolls == some 0

def next (s : Signal) : Signal :=
  ⟨s.quietPolls.map (· - 1)⟩

theorem isFired_next {s : Signal} (h : s.isFired = true) : s.next.isFired = true := by
  simp only [isFired, beq_iff_eq] at h
  simp [isFired, next, h]

theorem next_never : never.next = never := rfl

end Signal

/-- A computation that polls a stop signal. -/
abbrev Task (ε α : Type) := StateT Signal (Except ε) α

namespace Task

variable {ε δ α : Type}

/-- Asks whether the signal has fired. -/
def poll : Task ε Bool := fun s => .ok (s.isFired, s.next)

def check (stopped : ε) : Task ε Unit := do
  if ← poll then throw stopped

/-- Lets a computation without polls run as a task. -/
def lift (x : Except ε α) : Task ε α := fun s => x.map fun a => (a, s)

/-- The same task with its errors renamed. -/
def mapError (f : ε → δ) (t : Task ε α) : Task δ α := fun s => (t s).mapError f

end Task

end SatLab
