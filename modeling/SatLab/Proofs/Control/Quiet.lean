import SatLab.Proofs.Control.Steady
/-!
Tasks that nobody stops. While the signal never fires, a quiet task does not end as if it had been
stopped, and it hands the signal on as it is. So an error that tells of a stop comes from a signal.
-/

set_option autoImplicit false
set_option relaxedAutoImplicit false

namespace SatLab.Task

variable {ε δ α β γ : Type} {stopped : ε}

/-- Without a signal a task fails for another reason than `stopped`, if it fails. -/
inductive Quiet (stopped : ε) (t : Task ε α) : Prop
  | failed {e : ε} (ran : t .never = .error e) (other : e ≠ stopped)
  | ended {a : α} (ran : t .never = .ok (a, .never))

theorem Quiet.ne {t : Task ε α} {e : ε} (quiet : t.Quiet stopped) (failed : t .never = .error e) :
    e ≠ stopped := by
  rcases quiet with ⟨ran, other⟩ | ran
  · cases ran.symm.trans failed
    exact other
  · cases ran.symm.trans failed

theorem Quiet.signal_eq {t : Task ε α} {a : α} {sig : Signal} (quiet : t.Quiet stopped)
    (ran : t .never = .ok (a, sig)) : sig = .never := by
  rcases quiet with ⟨failed, -⟩ | ended
  · cases failed.symm.trans ran
  · cases ended.symm.trans ran
    rfl

theorem Quiet.answer_eq_ok_iff {t : Task ε α} {a : α} (quiet : t.Quiet stopped) :
    t.answer .never = .ok a ↔ t .never = .ok (a, .never) := by
  rw [answer]
  rcases quiet with ⟨ran, -⟩ | ran <;> simp [ran, Except.map]

section Build

theorem quiet_pure (a : α) : (pure a : Task ε α).Quiet stopped := .ended rfl

theorem quiet_throw {e : ε} (other : e ≠ stopped) : (throw e : Task ε α).Quiet stopped :=
  .failed rfl other

theorem quiet_lift {x : Except ε α} (other : x ≠ .error stopped) : (lift x).Quiet stopped := by
  cases x with
  | error e => exact .failed rfl (mt (congrArg Except.error) other)
  | ok a => exact .ended rfl

theorem quiet_check (stopped' : ε) : (check stopped').Quiet stopped := .ended (check_never stopped')

theorem quiet_guard {refused : Prop} [Decidable refused] {e : ε} {k : γ → Task ε α}
    {t : Task ε α} (other : e ≠ stopped) (quiet : t.Quiet stopped) :
    (if refused then throw e >>= k else t).Quiet stopped := by
  split
  · exact .failed rfl other
  · exact quiet

theorem Quiet.bind {t : Task ε α} {k : α → Task ε β} (quiet : t.Quiet stopped)
    (next : ∀ a, (k a).Quiet stopped) : (t >>= k).Quiet stopped := by
  rcases quiet with ⟨ran, other⟩ | @⟨a, ran⟩
  · exact .failed (bind_of_error ran) other
  · have reached : (t >>= k) .never = k a .never := bind_of_ok ran
    rcases next a with ⟨ran', other⟩ | ran'
    · exact .failed (reached.trans ran') other
    · exact .ended (reached.trans ran')

theorem Quiet.map {t : Task ε α} (quiet : t.Quiet stopped) (g : α → β) :
    (g <$> t).Quiet stopped :=
  quiet.bind fun a => quiet_pure (g a)

theorem Quiet.mapError {t : Task ε α} {stopped' : δ} {g : ε → δ} (quiet : t.Quiet stopped)
    (apart : ∀ e, g e = stopped' → e = stopped) : (t.mapError g).Quiet stopped' := by
  rcases quiet with ⟨ran, other⟩ | ran
  · exact .failed (mapError_error ran) (mt (apart _) other)
  · exact .ended (mapError_ok ran)

theorem Yielding.quiet {t : Task δ α} {g : δ → ε} (yielding : t.Yielding)
    (other : ∀ e, g e ≠ stopped) : (t.mapError g).Quiet stopped := by
  cases ran : t .never with
  | error e => exact .failed (mapError_error ran) (other e)
  | ok p =>
    obtain ⟨a, sig⟩ := p
    obtain rfl := yielding.signal_eq ran
    exact .ended (mapError_ok ran)

theorem quiet_mapM {items : List γ} {t : γ → Task ε α} (each : ∀ item, (t item).Quiet stopped) :
    (items.mapM t).Quiet stopped := by
  induction items with
  | nil => exact quiet_pure []
  | cons item items ih =>
    rw [List.mapM_cons]
    exact (each item).bind fun a => ih.bind fun rest => quiet_pure (a :: rest)

theorem mapM_eq_ok_iff {items : List γ} {t : γ → Task ε α} {as : List α}
    (each : ∀ item, (t item).Quiet stopped) :
    items.mapM t .never = .ok (as, .never) ↔
      items.map (fun item => (t item).answer .never) = as.map .ok := by
  induction items generalizing as with
  | nil => cases as <;> simp
  | cons item items ih =>
    rw [List.mapM_cons, List.map_cons]
    constructor
    · intro ran
      obtain ⟨a, _, first, behind⟩ := bind_eq_ok.mp ran
      obtain rfl := (each item).signal_eq first
      obtain ⟨rest, _, others, given⟩ := bind_eq_ok.mp behind
      cases given
      rw [List.map_cons, answer_of_ok first, ih.mp others]
    · intro answers
      cases as with
      | nil => cases answers
      | cons a as =>
        obtain ⟨first, others⟩ := List.cons_eq_cons.mp answers
        rw [bind_of_ok ((each item).answer_eq_ok_iff.mp first), bind_of_ok (ih.mpr others)]
        rfl

theorem quiet_foldlM {items : List γ} {t : α → γ → Task ε α}
    (each : ∀ a item, (t a item).Quiet stopped) (a : α) : (items.foldlM t a).Quiet stopped := by
  induction items generalizing a with
  | nil => exact quiet_pure a
  | cons item items ih =>
    rw [List.foldlM_cons]
    exact (each a item).bind ih

end Build

end SatLab.Task
