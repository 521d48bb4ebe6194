import SatLab.Random.Source
/-!
How draws run. A draw made of others has an equation for the source that it starts with.
-/

set_option autoImplicit false
set_option relaxedAutoImplicit false

namespace SatLab.Random

variable {σ α β : Type}

@[simp] theorem draw_bind (d : Draw σ α) (k : α → Draw σ β) (s : σ) :
    (d >>= k) s = k (d s).1 (d s).2 := rfl

@[simp] theorem draw_pure (a : α) (s : σ) : (pure a : Draw σ α) s = (a, s) := rfl

@[simp] theorem draws_cons (d : α → Draw σ β) (item : α) (items : List α) (s : σ) :
    ((item :: items).mapM d : Draw σ (List β)) s =
      ((d item s).1 :: (items.mapM d (d item s).2).1, (items.mapM d (d item s).2).2) := by
  rw [List.mapM_cons]
  rfl

section Pick

variable [WordSource σ] {items : List α} {s s' : σ}

theorem mem_of_pick {x : α} (picked : (pick items : Draw σ (Option α)) s = (some x, s')) :
    x ∈ items := by
  unfold pick at picked
  split at picked
  · cases picked
  · exact List.mem_of_getElem? (congrArg Prod.fst picked)

theorem pick_eq_none_iff :
    (pick items : Draw σ (Option α)) s = (none, s') ↔ items = [] ∧ s' = s := by
  cases items with
  | nil =>
    change ((none : Option α), s) = (none, s') ↔ _
    simp [eq_comm]
  | cons x items =>
    have inside : ((below (x :: items).length : Draw σ Nat) s).1 < (x :: items).length :=
      below_lt (Nat.succ_pos items.length) s
    have found := List.getElem?_eq_getElem inside
    change ((x :: items)[((below (x :: items).length : Draw σ Nat) s).1]?, _) = (none, s') ↔ _
    rw [found]
    simp

end Pick

end SatLab.Random
