/-!
Random draws from a source of 32-bit words. A source is anything that hands out words one
after the other; what a draw makes of the words, and how many it takes, is fixed here. A
number below a bound is drawn from one word of 32 bits and at most a second one, as for
every bound that fits in 32 bits; larger bounds take double words and are left out.
-/

set_option autoImplicit false
set_option relaxedAutoImplicit false

namespace SatLab.Random

/-- Sources of random words: each word comes with the source behind it. -/
class WordSource (σ : Type) where
  word : σ → UInt32 × σ

abbrev Draw (σ α : Type) := StateM σ α

variable {σ : Type} [WordSource σ]

def word : Draw σ UInt32 := fun s => WordSource.word s

/-- Two words as one number, the low half first. -/
def doubleWord : Draw σ UInt64 := do
  let low ← word
  let high ← word
  return high.toUInt64 <<< 32 ||| low.toUInt64

def bit : Draw σ Bool := do
  return (← word) >>> 31 == 1

/-- An even choice between yes and no by a double word. -/
def coin : Draw σ Bool := do
  return (← doubleWord) < 0x8000000000000000

/-- A multiple of `2 ^ -53` in `[0, 1)`. -/
def unitReal : Draw σ Float := do
  return ((← doubleWord) >>> 11).toFloat * 1.1102230246251565e-16

/-- A multiple of `2 ^ -51` in `[-1, 1)`. -/
def symmetricReal : Draw σ Float := do
  return ((← doubleWord) >>> 12).toFloat * 2.220446049250313e-16 * 2.0
    + (-1.0)

/-- A number below a bound of 32 bits: the upper half of the product of bound and word. Where
the lower half is too close to a carry, a second word decides the carry. -/
def below (bound : Nat) : Draw σ Nat := do
  let product := (← word).toNat * bound
  let high := product / 0x100000000
  let low := product % 0x100000000
  if 0x100000000 - bound < low then
    let next := (← word).toNat * bound / 0x100000000
    return if 0x100000000 ≤ low + next then high + 1 else high
  return high

/-- An element of a list, none and no word taken when it is empty. -/
def pick {α : Type} (items : List α) : Draw σ (Option α) := do
  if items.isEmpty then return none
  return items[← below items.length]?

/-- Adds a number to those chosen; where it is one of them, that one gives way to `last`. -/
def addPlace (chosen : List Nat) (t last : Nat) : List Nat :=
  (chosen.map fun c => if c = t then last else c) ++ [t]

/-- Three distinct numbers below a bound. The bounds of the draws rise by one to the bound
itself; a number already drawn gives its place to the largest number of the present draw. -/
def sampleThree (bound : Nat) : Draw σ (List Nat) :=
  [bound - 3, bound - 2, bound - 1].foldlM (fun chosen last => do
    return addPlace chosen (← below (last + 1)) last) []

theorem below_lt {bound : Nat} (h : 0 < bound) (s : σ) :
    ((below bound : Draw σ Nat) s).1 < bound := by
  have small (w : UInt32) : w.toNat * bound ≤ (0x100000000 - 1) * bound :=
    Nat.mul_le_mul_right bound (by have := w.toNat_lt; omega)
  rcases e : (word s : UInt32 × σ) with ⟨w, s⟩
  rcases e' : (word s : UInt32 × σ) with ⟨v, t⟩
  have hp := small w
  have hq := small v
  simp only [below, bind, StateT.bind, e]
  by_cases carry : 0x100000000 - bound < w.toNat * bound % 0x100000000
  · rw [if_pos carry]
    simp only [StateT.bind, bind, e']
    change (if 0x100000000 ≤ w.toNat * bound % 0x100000000 + v.toNat * bound / 0x100000000 then
      w.toNat * bound / 0x100000000 + 1 else w.toNat * bound / 0x100000000) < bound
    generalize w.toNat * bound = p at *
    generalize v.toNat * bound = q at *
    split <;> omega
  · rw [if_neg carry]
    change w.toNat * bound / 0x100000000 < bound
    omega

private theorem length_addPlace (chosen : List Nat) (t last : Nat) :
    (addPlace chosen t last).length = chosen.length + 1 := by
  simp [addPlace]

private theorem le_of_mem_addPlace {chosen : List Nat} {t last i : Nat} (h : ∀ c ∈ chosen, c < last)
    (ht : t ≤ last) (hi : i ∈ addPlace chosen t last) : i ≤ last := by
  simp only [addPlace, List.mem_append, List.mem_map, List.mem_singleton] at hi
  rcases hi with ⟨c, hc, rfl⟩ | rfl
  · have := h c hc
    split <;> omega
  · exact ht

private theorem nodup_addPlace {chosen : List Nat} {t last : Nat} (hd : chosen.Nodup)
    (h : ∀ c ∈ chosen, c < last) : (addPlace chosen t last).Nodup := by
  rw [addPlace, List.nodup_append]
  refine ⟨?_, by simp, ?_⟩
  · rw [List.nodup_iff_pairwise_ne, List.pairwise_map]
    refine List.Pairwise.imp_of_mem ?_ hd
    intro c d hc hd hne
    have := h c hc
    have := h d hd
    split <;> split <;> omega
  · intro i hi j hj
    simp only [List.mem_map, List.mem_singleton] at hi hj
    obtain ⟨c, hc, rfl⟩ := hi
    have := h c hc
    split <;> omega

theorem sampleThree_distinct {bound : Nat} (h : 3 ≤ bound) (s : σ) :
    let places := ((sampleThree bound : Draw σ (List Nat)) s).1
    places.length = 3 ∧ places.Nodup ∧ ∀ i ∈ places, i < bound := by
  rcases e0 : (below (bound - 3 + 1) s : Nat × σ) with ⟨t0, s0⟩
  rcases e1 : (below (bound - 2 + 1) s0 : Nat × σ) with ⟨t1, s1⟩
  rcases e2 : (below (bound - 1 + 1) s1 : Nat × σ) with ⟨t2, s2⟩
  have h0 : t0 < bound - 3 + 1 := by
    simpa only [e0] using below_lt (show 0 < bound - 3 + 1 by omega) s
  have h1 : t1 < bound - 2 + 1 := by
    simpa only [e1] using below_lt (show 0 < bound - 2 + 1 by omega) s0
  have h2 : t2 < bound - 1 + 1 := by
    simpa only [e2] using below_lt (show 0 < bound - 1 + 1 by omega) s1
  have run : ((sampleThree bound : Draw σ (List Nat)) s).1 =
      addPlace (addPlace (addPlace [] t0 (bound - 3)) t1 (bound - 2)) t2 (bound - 1) := by
    have stays (l : List Nat) (t : σ) : (pure l : Draw σ (List Nat)) t = (l, t) := rfl
    simp only [sampleThree, List.foldlM, bind, StateT.bind, stays, e0, e1, e2]
  simp only [run]
  have b0 : ∀ c ∈ addPlace [] t0 (bound - 3), c < bound - 2 := fun c hc => by
    have := le_of_mem_addPlace (by simp) (by omega) hc
    omega
  have b1 : ∀ c ∈ addPlace (addPlace [] t0 (bound - 3)) t1 (bound - 2), c < bound - 1 :=
    fun c hc => by
      have := le_of_mem_addPlace b0 (by omega) hc
      omega
  refine ⟨by simp [length_addPlace], ?_, fun i hi => ?_⟩
  · exact nodup_addPlace (nodup_addPlace (nodup_addPlace List.nodup_nil (by simp)) b0) b1
  · have := le_of_mem_addPlace b1 (by omega) hi
    omega

end SatLab.Random
