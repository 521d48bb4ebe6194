import SatLab.Proofs.Control.Task
/-!
What a stop signal can do to a task. A steady task is cut short by it with one error or ends as if
the signal never fired. Steady tasks are put together from steady ones, and from tasks that answer
early when the signal fires and then look at it again. A task that looks at the signal later still
is firm: unless it breaks off without a signal, it does what a steady one does.
-/

set_option autoImplicit false
set_option relaxedAutoImplicit false

namespace SatLab.Task

variable {ε δ α β : Type}

/-- A task ends under a signal as it does under the one that never fires, and leaves a signal that
has fired so. -/
inductive Unmoved (t : Task ε α) (sig : Signal) : Prop
  | failed {e : ε} (quiet : t .never = .error e) (same : t sig = .error e)
  | ended {a : α} {sig' : Signal} (quiet : t .never = .ok (a, .never))
      (same : t sig = .ok (a, sig'))
      (kept : sig.isFired = true → sig'.isFired = true)

/-- A signal cuts a steady task short with the error `stopped` or leaves its answer as it is. -/
def Steady (stopped : ε) (t : Task ε α) : Prop :=
  ∀ sig, t sig = .error stopped ∨ t.Unmoved sig

/-- A signal that changes the answer of a yielding task has fired by its end. -/
def Yielding (t : Task ε α) : Prop :=
  ∀ sig, (sig ≠ .never ∧ ∃ a sig', t sig = .ok (a, sig') ∧ sig'.isFired = true) ∨ t.Unmoved sig

theorem Unmoved.signal_eq {t : Task ε α} {a : α} {sig sig' : Signal} (unmoved : t.Unmoved sig)
    (ran : t .never = .ok (a, sig')) : sig' = .never := by
  rcases unmoved with ⟨quiet, -⟩ | ⟨quiet, -, -⟩
  · cases ran.symm.trans quiet
  · cases ran.symm.trans quiet
    rfl

theorem Steady.signal_eq {stopped : ε} {t : Task ε α} {a : α} {sig : Signal}
    (steady : t.Steady stopped) (ran : t .never = .ok (a, sig)) : sig = .never := by
  rcases steady .never with cut | unmoved
  · cases ran.symm.trans cut
  · exact unmoved.signal_eq ran

theorem Steady.quiet_of_ok {stopped : ε} {t : Task ε α} {a : α} {sig sig' : Signal}
    (steady : t.Steady stopped) (ran : t sig = .ok (a, sig')) : t .never = .ok (a, .never) := by
  rcases steady sig with cut | ⟨-, same⟩ | ⟨quiet, same, -⟩
  · cases ran.symm.trans cut
  · cases ran.symm.trans same
  · cases ran.symm.trans same
    exact quiet

theorem Steady.ok_or_stopped {stopped : ε} {t : Task ε α} {a : α} (steady : t.Steady stopped)
    (quiet : t .never = .ok (a, .never)) (sig : Signal) :
    (∃ sig', t sig = .ok (a, sig')) ∨ t sig = .error stopped := by
  rcases steady sig with cut | ⟨failed, -⟩ | ⟨quiet', same, -⟩
  · exact .inr cut
  · cases quiet.symm.trans failed
  · cases quiet.symm.trans quiet'
    exact .inl ⟨_, same⟩

theorem Yielding.signal_eq {t : Task ε α} {a : α} {sig : Signal} (yielding : t.Yielding)
    (ran : t .never = .ok (a, sig)) : sig = .never :=
  ((yielding .never).resolve_left fun changed => changed.1 rfl).signal_eq ran

section Build

variable {stopped : ε}

theorem steady_pure (a : α) : (pure a : Task ε α).Steady stopped :=
  fun _ => .inr (.ended rfl rfl id)

theorem steady_throw (e : ε) : (throw e : Task ε α).Steady stopped :=
  fun _ => .inr (.failed rfl rfl)

theorem steady_guard {γ : Type} {refused : Prop} [Decidable refused] {e : ε} {k : γ → Task ε α}
    {t : Task ε α} (steady : t.Steady stopped) :
    (if refused then throw e >>= k else t).Steady stopped := by
  split
  · exact fun _ => .inr (.failed rfl rfl)
  · exact steady

theorem steady_lift (x : Except ε α) : (lift x).Steady stopped := by
  intro sig
  cases x with
  | error e => exact .inr (.failed rfl rfl)
  | ok a => exact .inr (.ended rfl rfl id)

theorem steady_check : (check stopped).Steady stopped := by
  intro sig
  rw [check_apply]
  by_cases fired : sig.isFired = true
  · exact .inl (if_pos fired)
  · refine .inr (.ended (check_never stopped) ?_ Signal.isFired_next)
    rw [check_apply, if_neg fired]

theorem Unmoved.bind {t : Task ε α} {k : α → Task ε β} {sig : Signal} (unmoved : t.Unmoved sig)
    (next : ∀ a, (k a).Steady stopped) :
    (t >>= k) sig = .error stopped ∨ (t >>= k).Unmoved sig := by
  rcases unmoved with ⟨quiet, same⟩ | @⟨a, sig', quiet, same, kept⟩
  · exact .inr (.failed (bind_of_error quiet) (bind_of_error same))
  · -- a signal that fired in `t` still has, so that it cuts `k a` short or leaves it alone
    have reached : (t >>= k) sig = k a sig' := bind_of_ok same
    have reachedQuiet : (t >>= k) .never = k a .never := bind_of_ok quiet
    rw [reached]
    rcases next a sig' with cut | ⟨quiet', same'⟩ | ⟨quiet', same', kept'⟩
    · exact .inl cut
    · exact .inr (.failed (reachedQuiet.trans quiet') (reached.trans same'))
    · exact .inr (.ended (reachedQuiet.trans quiet') (reached.trans same')
        fun fired => kept' (kept fired))

theorem Steady.bind {t : Task ε α} {k : α → Task ε β} (steady : t.Steady stopped)
    (next : ∀ a, (k a).Steady stopped) : (t >>= k).Steady stopped := by
  intro sig
  rcases steady sig with cut | unmoved
  · exact .inl (bind_of_error cut)
  · exact unmoved.bind next

theorem Steady.map {t : Task ε α} (steady : t.Steady stopped) (g : α → β) :
    (g <$> t).Steady stopped :=
  steady.bind fun a => steady_pure (g a)

theorem Unmoved.mapError {t : Task ε α} {sig : Signal} (unmoved : t.Unmoved sig) (g : ε → δ) :
    (t.mapError g).Unmoved sig := by
  rcases unmoved with ⟨quiet, same⟩ | ⟨quiet, same, kept⟩
  · exact .failed (mapError_error quiet) (mapError_error same)
  · exact .ended (mapError_ok quiet) (mapError_ok same) kept

theorem Steady.mapError {t : Task ε α} (steady : t.Steady stopped) (g : ε → δ) :
    (t.mapError g).Steady (g stopped) := by
  intro sig
  exact (steady sig).imp mapError_error fun unmoved => unmoved.mapError g

theorem Yielding.mapError {t : Task ε α} (yielding : t.Yielding) (g : ε → δ) :
    (t.mapError g).Yielding := by
  intro sig
  refine (yielding sig).imp ?_ fun unmoved => unmoved.mapError g
  rintro ⟨fires, a, sig', given, fired⟩
  exact ⟨fires, a, sig', mapError_ok given, fired⟩

theorem Yielding.bind_check {t : Task ε α} {k : α → Task ε β} (yielding : t.Yielding)
    (next : ∀ a, (k a).Steady stopped) :
    (t >>= fun a => check stopped >>= fun _ => k a).Steady stopped := by
  intro sig
  rcases yielding sig with ⟨-, a, sig', given, fired⟩ | unmoved
  · have cut : check stopped sig' = .error stopped := (check_apply ..).trans (if_pos fired)
    exact .inl ((bind_of_ok given).trans (bind_of_error cut))
  · exact unmoved.bind fun a => steady_check.bind fun _ => next a

theorem steady_mapM {γ : Type} {items : List γ} {t : γ → Task ε α}
    (each : ∀ item, (t item).Steady stopped) : (items.mapM t).Steady stopped := by
  induction items with
  | nil => exact steady_pure []
  | cons item items ih =>
    rw [List.mapM_cons]
    exact (each item).bind fun a => ih.bind fun rest => steady_pure (a :: rest)

theorem steady_foldlM {γ : Type} {items : List γ} {t : α → γ → Task ε α}
    (each : ∀ a item, (t a item).Steady stopped) (a : α) : (items.foldlM t a).Steady stopped := by
  induction items generalizing a with
  | nil => exact steady_pure a
  | cons item items ih =>
    rw [List.foldlM_cons]
    exact (each a item).bind ih

end Build

section Firm

variable {stopped broken : ε}

/-- What a task answers, whatever signal it leaves. -/
def answer (t : Task ε α) (sig : Signal) : Except ε α := (t sig).map Prod.fst

private theorem answer_of_error {t : Task ε α} {sig : Signal} {e : ε} (failed : t sig = .error e) :
    t.answer sig = .error e := by
  rw [answer, failed]
  rfl

theorem answer_of_ok {t : Task ε α} {sig sig' : Signal} {a : α} (ran : t sig = .ok (a, sig')) :
    t.answer sig = .ok a := by
  rw [answer, ran]
  rfl

theorem Unmoved.answer_eq {t : Task ε α} {sig : Signal} (unmoved : t.Unmoved sig) :
    t.answer sig = t.answer .never := by
  rcases unmoved with ⟨quiet, same⟩ | ⟨quiet, same, -⟩
  · rw [answer, answer, quiet, same]
  · rw [answer, answer, quiet, same]
    rfl

/-- A signal cuts a firm task short with the error `stopped` or leaves its answer as it is. Where
the task breaks off without a signal, it can also end it in another error before it gets there. -/
def Firm (stopped broken : ε) (t : Task ε α) : Prop :=
  ∀ sig, t sig = .error stopped ∨ t.Unmoved sig ∨
    t .never = .error broken ∧ ∃ e, t sig = .error e

/-- A task that a fired signal keeps from ending well. -/
def Refuses (t : Task ε α) : Prop := ∀ sig p, sig.isFired = true → t sig ≠ .ok p

theorem Steady.firm {t : Task ε α} (steady : t.Steady stopped) : t.Firm stopped broken :=
  fun sig => (steady sig).imp_right .inl

/-- A signal replaces the answer of the task by the error `stopped` or leaves it as it is. -/
def Spared (stopped : ε) (t : Task ε α) : Prop :=
  ∀ sig, t.answer sig = .error stopped ∨ t.answer sig = t.answer .never

theorem Steady.spared {t : Task ε α} (steady : t.Steady stopped) : t.Spared stopped := by
  intro sig
  rcases steady sig with cut | unmoved
  · exact .inl (answer_of_error cut)
  · exact .inr unmoved.answer_eq

theorem Firm.answer_eq {t : Task ε α} (firm : t.Firm stopped broken) (sig : Signal) :
    t.answer sig = .error stopped ∨ t.answer sig = t.answer .never ∨
      t.answer .never = .error broken ∧ ∃ e, t.answer sig = .error e := by
  rcases firm sig with cut | unmoved | ⟨breaks, e, other⟩
  · exact .inl (answer_of_error cut)
  · exact .inr (.inl unmoved.answer_eq)
  · exact .inr (.inr ⟨answer_of_error breaks, e, answer_of_error other⟩)

theorem refuses_check : (check stopped).Refuses := by
  intro sig p fired ended
  rw [check_apply, if_pos fired] at ended
  cases ended

theorem Refuses.bind {t : Task ε α} (refuses : t.Refuses) (k : α → Task ε β) :
    (t >>= k).Refuses := by
  intro sig p fired ended
  obtain ⟨a, sig', first, -⟩ := bind_eq_ok.mp ended
  exact refuses sig _ fired first

theorem Steady.bind_refuses {t : Task ε α} {k : α → Task ε β} (steady : t.Steady stopped)
    (next : ∀ a, (k a).Refuses) : (t >>= k).Refuses := by
  intro sig p fired ended
  obtain ⟨a, sig', first, then_⟩ := bind_eq_ok.mp ended
  rcases steady sig with cut | ⟨-, failed⟩ | ⟨-, same, kept⟩
  · cases first.symm.trans cut
  · cases first.symm.trans failed
  · cases first.symm.trans same
    exact next a sig' p (kept fired) then_

theorem Yielding.bind_refuses {t : Task ε α} {k : α → Task ε β} (yielding : t.Yielding)
    (next : ∀ a, (k a).Refuses) : (t >>= k).Refuses := by
  intro sig p fired ended
  obtain ⟨a, sig', first, then_⟩ := bind_eq_ok.mp ended
  have kept : sig'.isFired = true := by
    rcases yielding sig with ⟨-, a', sig'', given, still⟩ | ⟨-, failed⟩ | ⟨-, same, kept⟩
    · cases first.symm.trans given
      exact still
    · cases first.symm.trans failed
    · cases first.symm.trans same
      exact kept fired
  exact next a sig' p kept then_

theorem Firm.bind {t : Task ε α} {k : α → Task ε β} (steady : t.Steady stopped)
    (next : ∀ a, t .never = .ok (a, .never) → (k a).Firm stopped broken) :
    (t >>= k).Firm stopped broken := by
  intro sig
  rcases steady sig with cut | ⟨quiet, failed⟩ | ⟨quiet, same, kept⟩
  · exact .inl (bind_of_error cut)
  · exact .inr (.inl (.failed (bind_of_error quiet) (bind_of_error failed)))
  · rename_i a sig'
    have reached : (t >>= k) sig = k a sig' := bind_of_ok same
    have reachedQuiet : (t >>= k) .never = k a .never := bind_of_ok quiet
    rcases next a quiet sig' with
      cut | (⟨quiet', same'⟩ | ⟨quiet', same', kept'⟩) | ⟨breaks, e, other⟩
    · exact .inl (reached.trans cut)
    · exact .inr (.inl (.failed (reachedQuiet.trans quiet') (reached.trans same')))
    · exact .inr (.inl (.ended (reachedQuiet.trans quiet') (reached.trans same')
        fun fired => kept' (kept fired)))
    · exact .inr (.inr ⟨reachedQuiet.trans breaks, e, reached.trans other⟩)

/-- A yielding task may be followed by a steady one that a fired signal keeps from ending well,
if it fails in one way only and its answer decides nothing but the last answer. -/
theorem Yielding.firm {γ : Type} {t : Task ε α} {m : Task ε β} {g : α → β → γ}
    (yielding : t.Yielding) (only : ∀ e, t .never = .error e → e = broken)
    (steady : m.Steady stopped) (refuses : m.Refuses) :
    (t >>= fun a => g a <$> m).Firm stopped broken := by
  intro sig
  rcases yielding sig with ⟨-, a, sig', given, fired⟩ | unmoved
  · -- `t` was cut short, so that `m` starts under a fired signal and can only fail
    have reached : (t >>= fun a => g a <$> m) sig = (g a <$> m) sig' := bind_of_ok given
    rcases steady sig' with cut | ⟨quiet, failed⟩ | ⟨-, same, -⟩
    · exact .inl (reached.trans (map_of_error cut))
    · have ends : (t >>= fun a => g a <$> m) sig = .error _ :=
        reached.trans (map_of_error failed)
      cases first : t .never with
      | error e =>
        obtain rfl := only e first
        exact .inr (.inr ⟨bind_of_error first, _, ends⟩)
      | ok p =>
        obtain ⟨a', sig''⟩ := p
        obtain rfl := yielding.signal_eq first
        have reachedQuiet : (t >>= fun a => g a <$> m) .never = (g a' <$> m) .never :=
          bind_of_ok first
        exact .inr (.inl (.failed (reachedQuiet.trans (map_of_error quiet)) ends))
    · exact absurd same (refuses sig' _ fired)
  · exact (unmoved.bind fun a => steady.map (g a)).imp_right .inl

theorem Firm.mapError {t : Task ε α} (firm : t.Firm stopped broken) (g : ε → δ) :
    (t.mapError g).Firm (g stopped) (g broken) := by
  intro sig
  rcases firm sig with cut | unmoved | ⟨breaks, e, other⟩
  · exact .inl (mapError_error cut)
  · exact .inr (.inl (unmoved.mapError g))
  · exact .inr (.inr ⟨mapError_error breaks, g e, mapError_error other⟩)

theorem Firm.map {t : Task ε α} (firm : t.Firm stopped broken) (g : α → β) :
    (g <$> t).Firm stopped broken := by
  intro sig
  rcases firm sig with cut | unmoved | ⟨breaks, e, other⟩
  · exact .inl (map_of_error cut)
  · exact (unmoved.bind fun a => steady_pure (g a)).imp_right .inl
  · exact .inr (.inr ⟨map_of_error breaks, e, map_of_error other⟩)

end Firm

end SatLab.Task
