import SatLab.Proofs.Campaign.Delivery
/-!
Sequences of steps of a worker. Along them the list of registered jobs stays in the order of the
jobs, also where one of them has broken off, and the stop signals that have fired are those of the
jobs that were the oldest registered when the host cancelled.
-/

set_option autoImplicit false
set_option relaxedAutoImplicit false

namespace SatLab.Campaign

namespace Worker

def sentBy (w : Worker) : List Move → List Job
  | [] => []
  | m :: ms => m.sent w ++ match w.move? m with
    | some next => next.sentBy ms
    | none => []

def takenBy (w : Worker) : List Move → List Output
  | [] => []
  | m :: ms => m.taken w ++ match w.move? m with
    | some next => next.takenBy ms
    | none => []

/-- A job is registered and no older one is. -/
def Oldest (w : Worker) (id : Nat) : Prop :=
  id ∈ w.registered ∧ ∀ other ∈ w.registered, id ≤ other

section Moves

variable {u v w : Worker} {m : Move} {ms front back : List Move}

theorem moves?_cons :
    u.moves? (m :: ms) = some w ↔ ∃ v, u.move? m = some v ∧ v.moves? ms = some w :=
  Option.bind_eq_some_iff

theorem moves?_append :
    u.moves? (front ++ back) = some w ↔ ∃ v, u.moves? front = some v ∧ v.moves? back = some w := by
  rw [moves?, List.foldlM_append]
  exact Option.bind_eq_some_iff

theorem takenBy_cons (moved : u.move? m = some v) :
    u.takenBy (m :: ms) = m.taken u ++ v.takenBy ms := by
  rw [takenBy, moved]

theorem takenBy_append (moved : u.moves? front = some v) :
    u.takenBy (front ++ back) = u.takenBy front ++ v.takenBy back := by
  induction front generalizing u with
  | nil =>
    obtain rfl := Option.some.inj moved
    rfl
  | cons m front ih =>
    obtain ⟨next, step, moved⟩ := moves?_cons.mp moved
    rw [List.cons_append, takenBy_cons step, takenBy_cons step, ih moved, List.append_assoc]

theorem keeps_of_moves? {P : Worker → Prop}
    (keeps : ∀ {w w' : Worker} {m : Move}, w.move? m = some w' → P w → P w')
    (moved : u.moves? ms = some w) (start : P u) : P w := by
  induction ms generalizing u with
  | nil =>
    obtain rfl := Option.some.inj moved
    exact start
  | cons m ms ih =>
    obtain ⟨v, step, onward⟩ := moves?_cons.mp moved
    exact ih onward (keeps step start)

theorem kept_of_moves? (moved : u.moves? ms = some w) (kept : w.stopping = false) :
    u.stopping = false := by
  apply Bool.eq_false_iff.mpr
  intro stopping
  have stopped := keeps_of_moves? stopping_of_move? moved stopping
  rw [kept] at stopped
  cases stopped

theorem alone_of_moves? {signals : List Signal}
    (moved : u.moves? (signals.map Move.work) = some w) :
    w.fired = u.fired ∧ w.registering = u.registering ∧ w.closed = u.closed ∧
      w.stopping = u.stopping ∧ signals.length + w.steps ≤ u.steps := by
  induction signals generalizing u with
  | nil =>
    obtain rfl := Option.some.inj moved
    exact ⟨rfl, rfl, rfl, rfl, (Nat.zero_add _).le⟩
  | cons seen signals ih =>
    obtain ⟨v, step, onward⟩ := moves?_cons.mp moved
    have fewer := steps_work?_lt step
    have frame : v.fired = u.fired ∧ v.registering = u.registering ∧ v.closed = u.closed ∧
        v.stopping = u.stopping := by
      cases works_of_work? step <;> exact ⟨rfl, rfl, rfl, rfl⟩
    obtain ⟨fired, registering, closed, stopping, few⟩ := ih onward
    refine ⟨fired.trans frame.1, registering.trans frame.2.1, closed.trans frame.2.2.1,
      stopping.trans frame.2.2.2, ?_⟩
    rw [List.length_cons]
    omega

end Moves

end Worker

section Histories

variable {jobs : List Job} {received : List Output} {u w : Worker} {ms : List Move}

theorem History.moves (past : History jobs received u) (moved : u.moves? ms = some w) :
    History (jobs ++ u.sentBy ms) (received ++ u.takenBy ms) w := by
  induction ms generalizing jobs received u with
  | nil =>
    obtain rfl := Option.some.inj moved
    simpa [Worker.sentBy, Worker.takenBy] using past
  | cons m ms ih =>
    obtain ⟨v, step, moved⟩ := Worker.moves?_cons.mp moved
    have later := ih (past.move m step) moved
    simpa [Worker.sentBy, Worker.takenBy, step] using later

theorem History.alone {signals : List Signal} (past : History jobs received u)
    (moved : u.moves? (signals.map Move.work) = some w) : History jobs received w := by
  induction signals generalizing u with
  | nil =>
    obtain rfl := Option.some.inj moved
    exact past
  | cons seen signals ih =>
    obtain ⟨next, step, moved⟩ := Worker.moves?_cons.mp moved
    have past' := past.move (.work seen) step
    simp only [Move.sent, Move.taken, List.append_nil] at past'
    exact ih past' moved

theorem Worker.history_of_moves? (moved : ({} : Worker).moves? ms = some w) :
    History (({} : Worker).sentBy ms) (({} : Worker).takenBy ms) w := by
  have past := History.start.moves moved
  rwa [List.nil_append, List.nil_append] at past

end Histories

section Broken

variable {w w' : Worker} {m : Move} {f : Fault} {t : Thread}

/-- The host does to a worker whose thread has broken off what it does to one in any other place,
but that no job can be sent. -/
private theorem Worker.host_of_broken (broken : w.thread = .broken f)
    (host : ∀ seen, m ≠ .work seen) (moved : w.move? m = some w') :
    ({ w with thread := t } : Worker).move? m = some { w' with thread := t } ∧
      m.sent { w with thread := t } = m.sent w ∧ m.taken { w with thread := t } = m.taken w := by
  cases hosts_of_move? host moved with
  | send opened unlocked live =>
    rw [isLive, broken] at live
    cases live
  | register locked => exact ⟨Option.map_eq_some_iff.mpr ⟨_, locked, rfl⟩, rfl, rfl⟩
  | cancel unlocked =>
    refine ⟨?_, rfl, rfl⟩
    rw [move?, unlocked, cancel_eq]
    rfl
  | receive outputs =>
    refine ⟨?_, rfl, rfl⟩
    rw [move?, outputs]
  | stop => exact ⟨rfl, rfl, rfl⟩
  | close unlocked =>
    refine ⟨?_, rfl, rfl⟩
    rw [move?, unlocked]
    rfl

end Broken

/-- The accounts of a worker, and where its thread has broken off, those with the thread still in
the phase. -/
def Worker.Accounted (jobs : List Job) (received : List Output) (w : Worker) : Prop :=
  ∃ t ended rs, Accounts jobs received { w with thread := t } ended rs ∧
    (w.thread = t ∨ (∃ f, w.thread = .broken f) ∧ ∃ job phase rest p, t = .inPhase job phase rest p)

section Accounted

variable {jobs : List Job} {received : List Output} {w w' : Worker}

theorem Accounts.accounted {ended : List Delivery} {rs : List PhaseReport}
    (accounts : Accounts jobs received w ended rs) : w.Accounted jobs received :=
  ⟨w.thread, ended, rs, accounts, .inl rfl⟩

theorem History.accounted (past : History jobs received w) (kept : w.stopping = false) :
    w.Accounted jobs received := by
  induction past with
  | start => exact accounts_start.accounted
  | @move jobs received w w' m past moved ih =>
    have kept' := Worker.kept_of_move? moved kept
    obtain ⟨t, ended, rs, accounts, same | ⟨⟨f, broken⟩, broke⟩⟩ := ih kept'
    · subst same
      have accounts : Accounts jobs received w ended rs := accounts
      rcases m.work_or_host with ⟨seen, rfl⟩ | host
      · simp only [Move.sent, Move.taken, List.append_nil]
        by_cases whole : ∀ f, w'.thread ≠ .broken f
        · obtain ⟨ended', rs', accounts'⟩ :=
            accounts.work (fun _ _ => kept') whole (Worker.works_of_work? moved)
          exact accounts'.accounted
        · -- the thread breaks off, and the accounts are those in front of the step
          push Not at whole
          obtain ⟨f, broken⟩ := whole
          cases Worker.works_of_work? moved with
          | breakOff thread =>
            exact ⟨w.thread, ended, rs, accounts, .inr ⟨⟨_, rfl⟩, _, _, _, _, thread⟩⟩
          | _ => simp_all [Worker.exit]
      · exact (accounts.host host moved).accounted
    · rcases m.work_or_host with ⟨seen, rfl⟩ | host
      · rw [Worker.move?, Worker.work?, broken] at moved
        cases moved
      · obtain ⟨moved', sent, taken⟩ := Worker.host_of_broken (t := t) broken host moved
        have accounts' := accounts.host host moved'
        rw [sent, taken] at accounts'
        have broken' := Worker.broken_of_move? moved broken
        exact ⟨t, ended, rs, accounts', .inr ⟨⟨f, broken'⟩, broke⟩⟩

theorem Thread.listed_sublist (t : Thread) : t.listed.Sublist t.inHand := by
  cases t <;> simp [listed, inHand]

theorem Accounts.ascending {ended : List Delivery} {rs : List PhaseReport}
    (accounts : Accounts jobs received w ended rs) : w.registered.Pairwise (· < ·) := by
  have left := (List.pairwise_append.mp accounts.ids_ascending).2.1
  have fewer : ((w.thread.listed ++ w.queue).map Job.id).Sublist
      ((w.thread.inHand ++ w.queue).map Job.id) :=
    (w.thread.listed_sublist.append_right w.queue).map Job.id
  have registered := left.sublist fewer
  rw [← accounts.registered] at registered
  exact (List.pairwise_append.mp registered).1

theorem Worker.Accounted.ascending (accounted : w.Accounted jobs received) :
    w.registered.Pairwise (· < ·) := by
  obtain ⟨t, ended, rs, accounts, -⟩ := accounted
  exact accounts.ascending

theorem Worker.oldest_iff {id : Nat} (ascending : w.registered.Pairwise (· < ·)) :
    w.Oldest id ↔ w.registered.head? = some id := by
  unfold Oldest
  cases registered : w.registered with
  | nil => simp
  | cons first rest =>
    rw [registered] at ascending
    have later := (List.pairwise_cons.mp ascending).1
    rw [List.head?_cons, Option.some.injEq]
    constructor
    · rintro ⟨member, least⟩
      have low := least first List.mem_cons_self
      rcases List.mem_cons.mp member with rfl | behind
      · rfl
      · have high := later id behind
        omega
    · rintro rfl
      refine ⟨List.mem_cons_self, ?_⟩
      intro other member
      rcases List.mem_cons.mp member with rfl | behind
      · exact le_rfl
      · exact (later other behind).le

end Accounted

section Fired

variable {w w' : Worker} {m : Move} {ms : List Move} {id : Nat}

theorem Worker.mem_fired_of_move? (moved : w.move? m = some w') :
    id ∈ w'.fired ↔ id ∈ w.fired ∨ m = .cancel ∧ w.registered.head? = some id := by
  rcases m.work_or_host with ⟨seen, rfl⟩ | host
  · cases works_of_work? moved <;> simp [exit]
  · cases hosts_of_move? host moved with
    | cancel =>
      rw [List.mem_append, Option.mem_toList, or_comm, eq_self_iff_true, true_and]
    | send | register | receive | stop | close => simp

/-- A stop signal has fired along some steps if its job was at the head of the list of registered
jobs at a cancel. -/
theorem Worker.mem_fired_of_moves? (moved : w.moves? ms = some w') :
    id ∈ w'.fired ↔ id ∈ w.fired ∨ ∃ front back u, ms = front ++ Move.cancel :: back ∧
      w.moves? front = some u ∧ u.registered.head? = some id := by
  induction ms generalizing w with
  | nil =>
    obtain rfl := Option.some.inj moved
    simp
  | cons m ms ih =>
    obtain ⟨v, step, moved⟩ := moves?_cons.mp moved
    rw [ih moved, mem_fired_of_move? step]
    constructor
    · rintro ((fired | ⟨rfl, first⟩) | ⟨front, back, u, rfl, reached, first⟩)
      · exact .inl fired
      · exact .inr ⟨[], ms, w, rfl, rfl, first⟩
      · exact .inr ⟨m :: front, back, u, rfl, moves?_cons.mpr ⟨v, step, reached⟩, first⟩
    · rintro (fired | ⟨front, back, u, split, reached, first⟩)
      · exact .inl (.inl fired)
      · cases front with
        | nil =>
          obtain ⟨rfl, rfl⟩ := List.cons.inj split
          obtain rfl := Option.some.inj reached
          exact .inl (.inr ⟨rfl, first⟩)
        | cons m' front =>
          obtain ⟨rfl, rfl⟩ := List.cons.inj split
          obtain ⟨v', step', reached⟩ := moves?_cons.mp reached
          obtain rfl := Option.some.inj (step.symm.trans step')
          exact .inr ⟨front, back, u, rfl, reached, first⟩

end Fired

end SatLab.Campaign
