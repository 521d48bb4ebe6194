/-!
Decimal numerals of whole numbers. Writing gives the digits without leading zeros;
reading takes an optional sign and ASCII digits only, and keeps to a range.
-/

set_option autoImplicit false
set_option relaxedAutoImplicit false

namespace SatLab.Text

def digitChar (d : Nat) : Char :=
  Char.ofNat (48 + d)

def digit? (c : Char) : Option Nat :=
  if 48 ≤ c.toNat && c.toNat ≤ 57 then some (c.toNat - 48) else none

def digits (n : Nat) : List Char :=
  if n < 10 then [digitChar n] else digits (n / 10) ++ [digitChar (n % 10)]

/-- The decimal digits with a minus sign in front of a negative number. -/
def signedDigits (i : Int) : List Char :=
  if i < 0 then '-' :: digits i.natAbs else digits i.natAbs

def valueFrom (n : Nat) : List Char → Option Nat
  | [] => some n
  | c :: s => (digit? c).bind fun d => valueFrom (10 * n + d) s

/-- The value of a nonempty run of digits. -/
def unsigned? : List Char → Option Nat
  | [] => none
  | s => valueFrom 0 s

def count? : List Char → Option Nat
  | '+' :: s => (unsigned? s).filter (· < 0x10000000000000000)
  | s => (unsigned? s).filter (· < 0x10000000000000000)

/-- A whole number in `[-2 ^ 31, 2 ^ 31)`; either sign may stand in front. -/
def integer? : List Char → Option Int
  | '-' :: s => ((unsigned? s).filter (· ≤ 0x80000000)).map fun n : Nat => -(n : Int)
  | '+' :: s => ((unsigned? s).filter (· < 0x80000000)).map fun n : Nat => (n : Int)
  | s => ((unsigned? s).filter (· < 0x80000000)).map fun n : Nat => (n : Int)

private theorem digit?_digitChar {d : Nat} (h : d < 10) : digit? (digitChar d) = some d := by
  have all : ∀ d < 10, digit? (digitChar d) = some d := by decide
  exact all d h

theorem digits_ne_nil (n : Nat) : digits n ≠ [] := by
  rw [digits]
  split <;> simp

private theorem valueFrom_append (n : Nat) (s t : List Char) :
    valueFrom n (s ++ t) = (valueFrom n s).bind fun m => valueFrom m t := by
  induction s generalizing n with
  | nil => rfl
  | cons c s ih => cases hd : digit? c <;> simp [valueFrom, hd, ih]

private theorem valueFrom_digits (n : Nat) : valueFrom 0 (digits n) = some n := by
  induction n using Nat.strongRecOn with
  | ind n ih =>
    rw [digits]
    split
    · next h => simp [valueFrom, digit?_digitChar h]
    · next h =>
      rw [valueFrom_append, ih (n / 10) (by omega)]
      simp only [Option.bind_some, valueFrom, digit?_digitChar (Nat.mod_lt n (by omega)),
        Nat.div_add_mod]

private theorem unsigned?_digits (n : Nat) : unsigned? (digits n) = some n := by
  rw [unsigned?.eq_2 _ (digits_ne_nil n), valueFrom_digits]

theorem isSome_digit?_of_mem_digits {n : Nat} {c : Char} (h : c ∈ digits n) :
    (digit? c).isSome := by
  induction n using Nat.strongRecOn with
  | ind n ih =>
    rw [digits] at h
    split at h
    · next hn =>
      obtain rfl := List.mem_singleton.mp h
      simp [digit?_digitChar hn]
    · next hn =>
      rcases List.mem_append.mp h with h | h
      · exact ih (n / 10) (by omega) h
      · obtain rfl := List.mem_singleton.mp h
        simp [digit?_digitChar (Nat.mod_lt n (by omega))]

theorem count?_digits {n : Nat} (h : n < 0x10000000000000000) : count? (digits n) = some n := by
  have hplus : ∀ s, digits n = '+' :: s → False := by
    intro s e
    have := isSome_digit?_of_mem_digits (e ▸ List.mem_cons_self : '+' ∈ digits n)
    simp [digit?] at this
  rw [count?.eq_2 _ hplus, unsigned?_digits]
  simp only [Option.filter_some, decide_eq_true h, if_true]

theorem integer?_signedDigits {i : Int} (h : -0x80000000 ≤ i) (h' : i < 0x80000000) :
    integer? (signedDigits i) = some i := by
  rw [signedDigits]
  split
  · next hi =>
    rw [integer?, unsigned?_digits]
    have hf : i.natAbs ≤ 0x80000000 := by omega
    simp only [Option.filter_some, decide_eq_true hf, if_true, Option.map_some, Option.some.injEq]
    omega
  · next hi =>
    have hsign : ∀ c, (digit? c).isSome = false → ∀ s, digits i.natAbs = c :: s → False := by
      intro c hc s e
      have := isSome_digit?_of_mem_digits (e ▸ List.mem_cons_self : c ∈ digits i.natAbs)
      simp [hc] at this
    rw [integer?.eq_3 _ (hsign '-' (by decide)) (hsign '+' (by decide)), unsigned?_digits]
    have hf : i.natAbs < 0x80000000 := by omega
    simp only [Option.filter_some, decide_eq_true hf, if_true, Option.map_some, Option.some.injEq]
    omega

end SatLab.Text
