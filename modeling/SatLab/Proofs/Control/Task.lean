import Mathlib.Logic.Basic
import SatLab.Control.Signal
/-!
How tasks run. Each way of building a task has an equation for the signal it starts with, so
that a task is run by rewriting.
-/

set_option autoImplicit false
set_option relaxedAutoImplicit false

namespace SatLab

section Except

variable {ε δ α β : Type}

@[simp] theorem ok_bind (a : α) (k : α → Except ε β) : (Except.ok a >>= k) = k a := rfl

@[simp] theorem error_bind (e : ε) (k : α → Except ε β) :
    ((Except.error e : Except ε α) >>= k) = .error e := rfl

@[simp] theorem pure_eq_ok (a : α) : (pure a : Except ε α) = .ok a := rfl

@[simp] theorem ok_mapError (g : ε → δ) (a : α) : (Except.ok a).mapError g = .ok a := rfl

@[simp] theorem error_mapError (g : ε → δ) (e : ε) :
    (Except.error e : Except ε α).mapError g = .error (g e) := rfl

theorem mapError_ok_iff {g : ε → δ} {x : Except ε α} {a : α} :
    x.mapError g = .ok a ↔ x = .ok a := by
  cases x <;> simp

theorem ok_of_toOption {x : Except ε α} {a : α} (evaluated : x.toOption = some a) : x = .ok a := by
  cases x with
  | error e => cases evaluated
  | ok b =>
    cases evaluated
    rfl

theorem mem_of_mapM {g : α → Except ε β} {items : List α} {outs : List β}
    (mapped : items.mapM g = .ok outs) :
    (∀ b ∈ outs, ∃ a ∈ items, g a = .ok b) ∧ ∀ a ∈ items, ∃ b ∈ outs, g a = .ok b := by
  induction items generalizing outs with
  | nil =>
    cases mapped
    simp
  | cons a items ih =>
    rw [List.mapM_cons] at mapped
    cases first : g a with
    | error e =>
      rw [first] at mapped
      cases mapped
    | ok b =>
      rw [first, ok_bind] at mapped
      cases later : items.mapM g with
      | error e =>
        rw [later] at mapped
        cases mapped
      | ok rest =>
        rw [later] at mapped
        cases mapped
        obtain ⟨given, taken⟩ := ih later
        refine ⟨List.forall_mem_cons.mpr ⟨⟨a, List.mem_cons_self, first⟩, fun c listed => ?_⟩,
          List.forall_mem_cons.mpr ⟨⟨b, List.mem_cons_self, first⟩, fun c listed => ?_⟩⟩
        · obtain ⟨d, listed', same⟩ := given c listed
          exact ⟨d, List.mem_cons_of_mem a listed', same⟩
        · obtain ⟨d, listed', same⟩ := taken c listed
          exact ⟨d, List.mem_cons_of_mem b listed', same⟩

theorem foldlM_keeps {inv : β → Prop} {step : β → α → Except ε β}
    (keeps : ∀ {b b' : β} {a : α}, inv b → step b a = .ok b' → inv b') {items : List α} {b b' : β}
    (start : inv b) (folded : items.foldlM step b = .ok b') : inv b' := by
  induction items generalizing b with
  | nil =>
    cases folded
    exact start
  | cons a items ih =>
    rw [List.foldlM_cons] at folded
    cases stepped : step b a with
    | error e =>
      rw [stepped] at folded
      cases folded
    | ok next =>
      rw [stepped] at folded
      exact ih (keeps start stepped) folded

theorem error_of_foldlM {P : ε → Prop} {step : β → α → Except ε β}
    (fails : ∀ {b : β} {a : α} {e : ε}, step b a = .error e → P e) {items : List α} {b : β} {e : ε}
    (folded : items.foldlM step b = .error e) : P e := by
  induction items generalizing b with
  | nil => cases folded
  | cons a items ih =>
    rw [List.foldlM_cons] at folded
    cases stepped : step b a with
    | error e' =>
      rw [stepped] at folded
      cases folded
      exact fails stepped
    | ok next =>
      rw [stepped] at folded
      exact ih folded

end Except

namespace Task

variable {ε δ α β : Type}

@[simp] theorem bind_apply (t : Task ε α) (k : α → Task ε β) (s : Signal) :
    (t >>= k) s = t s >>= fun p => k p.1 p.2 := rfl

@[simp] theorem map_apply (g : α → β) (t : Task ε α) (s : Signal) :
    (g <$> t) s = t s >>= fun p => .ok (g p.1, p.2) := rfl

@[simp] theorem pure_apply (a : α) (s : Signal) : (pure a : Task ε α) s = .ok (a, s) := rfl

@[simp] theorem throw_apply (e : ε) (s : Signal) : (throw e : Task ε α) s = .error e := rfl

@[simp] theorem poll_never : (poll : Task ε Bool) .never = .ok (false, .never) := rfl

theorem check_apply (stopped : ε) (s : Signal) :
    check stopped s = if s.isFired then .error stopped else .ok ((), s.next) := by
  rw [check, bind_apply, poll, ok_bind]
  split <;> rfl

@[simp] theorem check_never (stopped : ε) : check stopped .never = .ok ((), .never) := rfl

@[simp] theorem lift_ok (a : α) (s : Signal) : (lift (.ok a) : Task ε α) s = .ok (a, s) := rfl

@[simp] theorem lift_error (e : ε) (s : Signal) : (lift (.error e) : Task ε α) s = .error e := rfl

theorem bind_of_ok {t : Task ε α} {k : α → Task ε β} {s s' : Signal} {a : α}
    (done : t s = .ok (a, s')) : (t >>= k) s = k a s' := by
  rw [bind_apply, done, ok_bind]

theorem bind_of_error {t : Task ε α} {k : α → Task ε β} {s : Signal} {e : ε}
    (failed : t s = .error e) : (t >>= k) s = .error e := by
  rw [bind_apply, failed, error_bind]

theorem bind_eq_ok {t : Task ε α} {k : α → Task ε β} {s : Signal} {p : β × Signal} :
    (t >>= k) s = .ok p ↔ ∃ a s', t s = .ok (a, s') ∧ k a s' = .ok p := by
  constructor
  · intro done
    cases first : t s with
    | error e => cases (bind_of_error first).symm.trans done
    | ok q => exact ⟨q.1, q.2, rfl, (bind_of_ok first).symm.trans done⟩
  · rintro ⟨a, s', first, then_⟩
    exact (bind_of_ok first).trans then_

theorem map_eq_ok {g : α → β} {t : Task ε α} {s s' : Signal} {b : β} :
    (g <$> t) s = .ok (b, s') ↔ ∃ a, t s = .ok (a, s') ∧ b = g a := by
  rw [map_apply]
  cases t s with
  | error e => simp
  | ok p =>
    constructor
    · intro mapped
      cases mapped
      exact ⟨p.1, rfl, rfl⟩
    · rintro ⟨a, ran, rfl⟩
      cases ran
      rfl

theorem map_of_error {g : α → β} {t : Task ε α} {s : Signal} {e : ε} (failed : t s = .error e) :
    (g <$> t) s = .error e := by
  rw [map_apply, failed, error_bind]

theorem lift_eq_ok {x : Except ε α} {s : Signal} {p : α × Signal} :
    lift x s = .ok p ↔ x = .ok p.1 ∧ p.2 = s := by
  cases x with
  | error e => exact ⟨(nomatch ·), fun ended => nomatch ended.1⟩
  | ok a =>
    rw [lift_ok, Except.ok.injEq, Except.ok.injEq, Prod.ext_iff]
    exact ⟨fun h => ⟨h.1, h.2.symm⟩, fun h => ⟨h.1, h.2.symm⟩⟩

theorem mapError_ok {g : ε → δ} {t : Task ε α} {s : Signal} {p : α × Signal} (done : t s = .ok p) :
    mapError g t s = .ok p := by
  rw [mapError, done, ok_mapError]

theorem mapError_error {g : ε → δ} {t : Task ε α} {s : Signal} {e : ε} (failed : t s = .error e) :
    mapError g t s = .error (g e) := by
  rw [mapError, failed, error_mapError]

theorem mapError_eq_ok {g : ε → δ} {t : Task ε α} {s : Signal} {p : α × Signal} :
    mapError g t s = .ok p ↔ t s = .ok p := by
  rw [mapError, mapError_ok_iff]

theorem mapError_eq_error {g : ε → δ} {t : Task ε α} {s : Signal} {e : δ} :
    mapError g t s = .error e ↔ ∃ e', t s = .error e' ∧ g e' = e := by
  rw [mapError]
  cases t s <;> simp

/-- Under every signal, what a task answers has a property. -/
def Ensures (post : α → Prop) (t : Task ε α) : Prop := ∀ s p, t s = .ok p → post p.1

section Ensures

variable {post : α → Prop}

theorem ensures_pure {a : α} (holds : post a) : (pure a : Task ε α).Ensures post := by
  rintro s p answered
  cases answered
  exact holds

theorem ensures_bind {t : Task ε β} {k : β → Task ε α}
    (next : ∀ b s s', t s = .ok (b, s') → (k b).Ensures post) : (t >>= k).Ensures post := by
  intro s p answered
  obtain ⟨b, s', first, then_⟩ := bind_eq_ok.mp answered
  exact next b s s' first s' p then_

theorem ensures_guard {refused : Prop} [Decidable refused] {e : ε} {k : β → Task ε α}
    {t : Task ε α} (ensures : t.Ensures post) :
    (if refused then throw e >>= k else t).Ensures post := by
  split
  · intro s p answered
    cases answered
  · exact ensures

end Ensures

end Task

end SatLab
