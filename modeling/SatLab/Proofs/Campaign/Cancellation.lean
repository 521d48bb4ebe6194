import SatLab.Proofs.Campaign.Moves
/-!
What a cancel comes to, however the steps of host and thread interleave. It makes the stop signal of
the oldest registered job fire and no other. A job whose signal never fires ends as if nobody could
stop it; a job that is cancelled in front of its first phase is cancelled for good, at most six
steps of the thread later.
-/

set_option autoImplicit false
set_option relaxedAutoImplicit false

namespace SatLab.Campaign

def Move.isWork : Move → Bool
  | work _ => true
  | _ => false

theorem Move.cancel_ne_work (seen : Signal) : cancel ≠ work seen := by
  intro same
  cases same

/-- The thread has not started the first phase of a job. -/
def Worker.Unstarted (w : Worker) (job : Job) : Prop :=
  job ∈ w.queue ∨ w.thread = .holding job ∨
    w.thread = .between job job.settings.selected job.settings.initial

/-- The steps of the thread that are left before it has announced that a job with a phase is
cancelled. -/
inductive Worker.Halts (received : List Output) (job : Job) (w : Worker) : Nat → Prop
  | behind {other : Job} {result : Except Error CampaignReport} {rest : List Job}
      (thread : w.thread = .retired other result) (queue : w.queue = job :: rest) :
      w.Halts received job 6
  | next {rest : List Job} (thread : w.thread = .idle) (queue : w.queue = job :: rest) :
      w.Halts received job 5
  | held (thread : w.thread = .holding job) : w.Halts received job 4
  | before {phase : Phase} {rest : List Phase} {p : Progress}
      (thread : w.thread = .between job (phase :: rest) p) : w.Halts received job 3
  | ended (thread : w.thread = .ended job (.error .cancelled)) : w.Halts received job 2
  | retired (thread : w.thread = .retired job (.error .cancelled)) : w.Halts received job 1
  | announced (told : .finished job.id (.error .cancelled) ∈ received ++ w.outputs) :
      w.Halts received job 0

section Host

variable {received : List Output} {job : Job} {w w' : Worker} {m : Move} {n : Nat}

private theorem Worker.host_keeps (host : ∀ seen, m ≠ .work seen) (moved : w.move? m = some w') :
    (∃ later, w'.queue = w.queue ++ later) ∧ m.taken w ++ w'.outputs = w.outputs := by
  cases hosts_of_move? host moved with
  | send => exact ⟨⟨_, rfl⟩, rfl⟩
  | receive outputs =>
    refine ⟨⟨[], (List.append_nil _).symm⟩, ?_⟩
    rw [Move.taken, outputs]
    rfl
  | register | cancel | stop | close => exact ⟨⟨[], (List.append_nil _).symm⟩, rfl⟩

theorem Worker.Halts.host (halts : w.Halts received job n) (host : ∀ seen, m ≠ .work seen)
    (moved : w.move? m = some w') : w'.Halts (received ++ m.taken w) job n := by
  have thread' := (host_frame host moved).1
  obtain ⟨⟨later, queue'⟩, outputs⟩ := host_keeps host moved
  cases halts with
  | behind thread queue =>
    rw [queue] at queue'
    exact .behind (thread'.trans thread) queue'
  | next thread queue =>
    rw [queue] at queue'
    exact .next (thread'.trans thread) queue'
  | held thread => exact .held (thread'.trans thread)
  | before thread => exact .before (thread'.trans thread)
  | ended thread => exact .ended (thread'.trans thread)
  | retired thread => exact .retired (thread'.trans thread)
  | announced told =>
    apply Worker.Halts.announced
    rwa [List.append_assoc, outputs]

end Host

section Thread

variable {received : List Output} {job : Job} {w w' : Worker} {seen : Signal} {n : Nat}

private theorem Worker.Works.outputs_prefix (works : w.Works seen w') :
    w.outputs <+: w'.outputs := by
  cases works with
  | report | announce => exact List.prefix_append _ _
  | _ => exact List.prefix_rfl

theorem Worker.Halts.work (halts : w.Halts received job n) (fires : job.id ∈ w.fired)
    (kept : w.stopping = false) (phases : job.settings.selected ≠ []) (works : w.Works seen w') :
    w'.Halts received job (n - 1) := by
  cases halts with
  | behind thread queue =>
    cases works with
    | announce => exact .next rfl queue
    | _ => simp_all
  | next thread queue =>
    cases works with
    | take _ queue' =>
      obtain ⟨rfl, rfl⟩ := List.cons.inj (queue.symm.trans queue')
      exact .held rfl
    | _ => simp_all
  | held thread =>
    cases works with
    | begin thread' =>
      obtain rfl := Thread.holding.inj (thread.symm.trans thread')
      obtain ⟨phase, rest, selected⟩ := List.exists_cons_of_ne_nil phases
      exact .before (congrArg (Thread.between job · job.settings.initial) selected)
    | _ => simp_all
  | before thread =>
    cases works with
    | halt thread' =>
      obtain ⟨rfl, -, -⟩ := Thread.between.inj (thread.symm.trans thread')
      exact .ended rfl
    | enter thread' quiet =>
      obtain ⟨rfl, -, -⟩ := Thread.between.inj (thread.symm.trans thread')
      exact absurd fires quiet
    | _ => simp_all
  | ended thread =>
    cases works with
    | retire thread' =>
      obtain ⟨rfl, rfl⟩ := Thread.ended.inj (thread.symm.trans thread')
      exact .retired rfl
    | _ => simp_all
  | retired thread =>
    cases works with
    | announce thread' =>
      obtain ⟨rfl, rfl⟩ := Thread.retired.inj (thread.symm.trans thread')
      apply Worker.Halts.announced
      exact List.mem_append_right _ (List.mem_append_right _ List.mem_cons_self)
    | _ => simp_all
  | announced told =>
    apply Worker.Halts.announced
    rcases List.mem_append.mp told with before | out
    · exact List.mem_append_left _ before
    · exact List.mem_append_right _ (works.outputs_prefix.subset out)

theorem Worker.Halts.moves {ms : List Move} (halts : w.Halts received job n)
    (fires : job.id ∈ w.fired) (phases : job.settings.selected ≠ [])
    (moved : w.moves? ms = some w') (kept : w'.stopping = false) :
    w'.Halts (received ++ w.takenBy ms) job (n - ms.countP Move.isWork) := by
  induction ms generalizing received w n with
  | nil =>
    obtain rfl := Option.some.inj moved
    simpa [takenBy] using halts
  | cons m ms ih =>
    have kept' := kept_of_moves? moved kept
    obtain ⟨v, step, goesOn⟩ := moves?_cons.mp moved
    have fires' : job.id ∈ v.fired := (mem_fired_of_move? step).mpr (.inl fires)
    rw [takenBy_cons step, ← List.append_assoc]
    rcases m.work_or_host with ⟨seen, rfl⟩ | host
    · have after := halts.work fires kept' phases (works_of_work? step)
      have later := ih after fires' goesOn
      rw [List.countP_cons_of_pos rfl, Nat.add_comm, ← Nat.sub_sub]
      simpa [Move.taken] using later
    · have after := halts.host host step
      have later := ih after fires' goesOn
      have notWork : ¬ m.isWork = true := by
        intro isWork
        cases m with
        | work seen => exact host seen rfl
        | _ => cases isWork
      rwa [List.countP_cons_of_neg notWork]

/-- While the end of a cancelled job is not announced, the job is in hand or in the queue, in no
phase, and the thread is held up by nothing but the lock of the list of registered jobs. -/
theorem Worker.Halts.pending (halts : w.Halts received job n) (left : n ≠ 0) :
    job ∈ w.thread.inHand ++ w.queue ∧ (∀ phase rest p, w.thread ≠ .inPhase job phase rest p) ∧
      (∀ f, w.thread ≠ .broken f) ∧
      (w.registering = none → ∃ next, w.work? w.ownSignal = some next) := by
  cases halts with
  | behind thread queue => simp [thread, queue, work?]
  | next thread queue => simp [thread, queue, work?]
  | held thread =>
    refine ⟨by simp [thread, Thread.inHand], by simp [thread], by simp [thread], ?_⟩
    intro _
    rw [work?, thread]
    dsimp only
    split <;> exact ⟨_, rfl⟩
  | before thread =>
    refine ⟨by simp [thread, Thread.inHand], by simp [thread], by simp [thread], ?_⟩
    intro _
    rw [work?, thread]
    dsimp only
    split <;> exact ⟨_, rfl⟩
  | ended thread =>
    refine ⟨by simp [thread, Thread.inHand], by simp [thread], by simp [thread], ?_⟩
    intro unlocked
    simp [work?, thread, unlocked]
  | retired thread => simp [thread, work?, Thread.inHand]
  | announced => exact absurd rfl left

end Thread

section Cancel

variable {jobs : List Job} {received : List Output} {job : Job} {u v w : Worker}
  {result : Except Error CampaignReport}

private theorem Worker.Accounted.finished_unstopped (accounted : w.Accounted jobs received)
    (sent : job ∈ jobs) (quiet : job.id ∉ w.fired)
    (finished : .finished job.id result ∈ received ++ w.outputs) :
    result = outcome job.settings := by
  obtain ⟨t, ended, rs, accounts, -⟩ := accounted
  obtain ⟨d, among, same, rfl⟩ := accounts.finished_iff.mp finished
  have sent' : d.job ∈ jobs := by
    rw [accounts.sent]
    exact List.mem_append_left _ (List.mem_map_of_mem among)
  obtain rfl := accounts.job_eq sent' sent same
  exact ((accounts.delivered d among).mono quiet).outcome_eq

/-- A job that stands at the head of the list of registered jobs and is not started is the next that
the thread runs. -/
theorem Worker.Accounted.halts (accounted : u.Accounted jobs received)
    (unlocked : u.registering = none) (oldest : u.Oldest job.id) (unstarted : u.Unstarted job)
    (phases : job.settings.selected ≠ []) : ∃ n ≤ 6, u.Halts received job n := by
  rcases unstarted with queued | thread | thread
  · have first := (oldest_iff accounted.ascending).mp oldest
    obtain ⟨t, ended, rs, accounts, placed⟩ := accounted
    have registered := accounts.registered
    have distinct := accounts.nodup
    change u.registered ++ u.registering.toList = (t.listed ++ u.queue).map Job.id at registered
    change ((t.inHand ++ u.queue).map Job.id).Nodup at distinct
    rw [unlocked, Option.toList_none, List.append_nil] at registered
    rw [registered] at first
    -- a job in hand that is registered stands in front of all of the queue
    have none : t.listed = [] := by
      cases listed : t.listed with
      | nil => rfl
      | cons ahead others =>
        rw [listed] at first
        have same : ahead.id = job.id := Option.some.inj first
        have inHand : ahead ∈ t.inHand := t.listed_sublist.subset (listed ▸ List.mem_cons_self)
        rw [List.map_append] at distinct
        have apart := (List.nodup_append.mp distinct).2.2
        exact absurd same (apart _ (List.mem_map_of_mem inHand) _ (List.mem_map_of_mem queued))
    have same : u.thread = t := by
      rcases placed with same | ⟨-, _, _, _, _, rfl⟩
      · exact same
      · cases none
    obtain ⟨rest, queue⟩ : ∃ rest, u.queue = job :: rest := by
      rw [none, List.nil_append] at first
      cases queue : u.queue with
      | nil =>
        rw [queue] at queued
        cases queued
      | cons next rest =>
        rw [queue] at first queued distinct
        have same : next.id = job.id := Option.some.inj first
        have inQueue : ((next :: rest).map Job.id).Nodup := by
          rw [List.map_append] at distinct
          exact distinct.of_append_right
        obtain rfl := List.inj_on_of_nodup_map inQueue List.mem_cons_self queued same
        exact ⟨rest, rfl⟩
    cases t with
    | idle => exact ⟨5, by omega, .next same queue⟩
    | retired other result => exact ⟨6, le_rfl, .behind same queue⟩
    | exited =>
      have empty : u.queue = [] := accounts.drained rfl
      rw [queue] at empty
      cases empty
    | broken f => exact accounts.stands.elim
    | holding | between | inPhase | ended => cases none
  · exact ⟨4, by omega, .held thread⟩
  · obtain ⟨phase, rest, selected⟩ := List.exists_cons_of_ne_nil phases
    rw [selected] at thread
    exact ⟨3, by omega, .before thread⟩

private theorem Worker.Accounted.halted {n : Nat} (accounted : w.Accounted jobs received)
    (halts : w.Halts received job n) : (∀ phase rest p, w.thread ≠ .inPhase job phase rest p) ∧
      ∀ result, .finished job.id result ∈ received ++ w.outputs → result = .error .cancelled := by
  obtain ⟨t, ended, rs, accounts, placed⟩ := accounted
  by_cases left : n = 0
  · subst left
    cases halts with
    | announced told =>
      obtain ⟨d, among, same, ends⟩ := accounts.finished_iff.mp told
      constructor
      · intro phase rest p thread
        rcases placed with rfl | ⟨⟨f, broken⟩, -⟩
        · have inHand : job ∈ w.thread.inHand := by simp [thread, Thread.inHand]
          have lower := accounts.ended_lt among (List.mem_append_left _ inHand)
          omega
        · rw [thread] at broken
          cases broken
      · intro result finished
        obtain ⟨d', among', same', rfl⟩ := accounts.finished_iff.mp finished
        obtain rfl := accounts.delivery_eq among among' (same.trans same'.symm)
        exact ends
  · obtain ⟨member, outside, whole, -⟩ := halts.pending left
    refine ⟨outside, ?_⟩
    intro result finished
    obtain ⟨d, among, same, -⟩ := accounts.finished_iff.mp finished
    rcases placed with rfl | ⟨⟨f, broken⟩, -⟩
    · have lower := accounts.ended_lt among member
      omega
    · exact absurd broken (whole f)

theorem Worker.Accounted.cancels (accounted : u.Accounted jobs received)
    (cancels : u.move? .cancel = some v) : (u.registered = [] → v = u) ∧
      (u.registered ≠ [] → ∃ id, u.Oldest id ∧ v = { u with fired := id :: u.fired }) := by
  cases hosts_of_move? Move.cancel_ne_work cancels with
  | cancel =>
    constructor
    · intro empty
      have none : u.registered.head? = none := by
        rw [empty]
        rfl
      rw [none]
      rfl
    · intro some
      obtain ⟨id, rest, registered⟩ := List.exists_cons_of_ne_nil some
      have first : u.registered.head? = Option.some id := by
        rw [registered]
        rfl
      refine ⟨id, (oldest_iff accounted.ascending).mpr first, ?_⟩
      rw [first]
      rfl

theorem Worker.Accounted.cancelled {ms : List Move} (accounted : u.Accounted jobs received)
    (cancels : u.move? .cancel = some v) (oldest : u.Oldest job.id) (unstarted : u.Unstarted job)
    (phases : job.settings.selected ≠ []) (onward : v.moves? ms = some w)
    (kept : w.stopping = false) : ∃ n ≤ 6,
      w.Halts (received ++ u.takenBy (.cancel :: ms)) job (n - ms.countP Move.isWork) := by
  have unlocked : u.registering = none := by
    cases hosts_of_move? Move.cancel_ne_work cancels with
    | cancel unlocked => exact unlocked
  have first := (oldest_iff accounted.ascending).mp oldest
  have fires : job.id ∈ v.fired := (mem_fired_of_move? cancels).mpr (.inr ⟨rfl, first⟩)
  obtain ⟨n, few, halts⟩ := accounted.halts unlocked oldest unstarted phases
  have after := (halts.host Move.cancel_ne_work cancels).moves fires phases onward kept
  rw [List.append_assoc, ← takenBy_cons cancels] at after
  exact ⟨n, few, after⟩

private theorem Worker.accounted_in_front {front back : List Move} {m : Move}
    (moved : ({} : Worker).moves? (front ++ m :: back) = some w) (kept : w.stopping = false)
    (reached : ({} : Worker).moves? front = some u) :
    u.Accounted (({} : Worker).sentBy front) (({} : Worker).takenBy front) ∧
      ∃ v, u.move? m = some v ∧ v.moves? back = some w := by
  obtain ⟨u', reached', onward⟩ := moves?_append.mp moved
  obtain rfl := Option.some.inj (reached.symm.trans reached')
  have kept' := kept_of_moves? onward kept
  exact ⟨(history_of_moves? reached).accounted kept', moves?_cons.mp onward⟩

end Cancel

/-- However the steps of host and thread interleave, and whether jobs break off or not, as long as
the host does not stop the worker: a cancel makes the stop signal of the oldest registered job fire,
if there is one, and changes nothing else. No other signal ever fires, and a job whose signal has
not fired ends as a run that nobody stops. After a cancel with a job as the oldest registered one
and its first phase not started, none of its phases ever starts; its end is that it is cancelled,
and it is announced after at most six steps of the thread, which only the lock of the list of
registered jobs can hold up. -/
theorem cancel_stops_oldest {ms : List Move} {w : Worker}
    (moved : ({} : Worker).moves? ms = some w) (kept : w.stopping = false) :
    (∀ front back u, ms = front ++ Move.cancel :: back → ({} : Worker).moves? front = some u →
      ∃ v, u.move? .cancel = some v ∧ (u.registered = [] → v = u) ∧
        (u.registered ≠ [] → ∃ id, u.Oldest id ∧ v = { u with fired := id :: u.fired })) ∧
    (∀ id, id ∈ w.fired ↔ ∃ front back u, ms = front ++ Move.cancel :: back ∧
      ({} : Worker).moves? front = some u ∧ u.Oldest id) ∧
    (∀ job ∈ ({} : Worker).sentBy ms, job.id ∉ w.fired → ∀ result,
      .finished job.id result ∈ ({} : Worker).takenBy ms ++ w.outputs →
        result = outcome job.settings) ∧
    ∀ front back u job, ms = front ++ Move.cancel :: back → ({} : Worker).moves? front = some u →
      u.Oldest job.id → u.Unstarted job →
      job.id ∈ w.fired ∧ (job.settings.selected ≠ [] →
        (∀ phase rest p, w.thread ≠ .inPhase job phase rest p) ∧
        (∀ result, .finished job.id result ∈ ({} : Worker).takenBy ms ++ w.outputs →
          result = .error .cancelled) ∧
        (.finished job.id (.error .cancelled) ∈ ({} : Worker).takenBy ms ++ w.outputs ∨
          back.countP Move.isWork < 6 ∧
            (w.registering = none → ∃ next, w.work? w.ownSignal = some next))) := by
  have accounted := (Worker.history_of_moves? moved).accounted kept
  have fired : ∀ id, id ∈ w.fired ↔ ∃ front back u, ms = front ++ Move.cancel :: back ∧
      ({} : Worker).moves? front = some u ∧ u.Oldest id := by
    intro id
    rw [Worker.mem_fired_of_moves? moved]
    constructor
    · rintro (start | ⟨front, back, u, rfl, reached, first⟩)
      · cases start
      · obtain ⟨accounted', -⟩ := Worker.accounted_in_front moved kept reached
        have oldest := (Worker.oldest_iff accounted'.ascending).mpr first
        exact ⟨front, back, u, rfl, reached, oldest⟩
    · rintro ⟨front, back, u, rfl, reached, oldest⟩
      obtain ⟨accounted', -⟩ := Worker.accounted_in_front moved kept reached
      have first := (Worker.oldest_iff accounted'.ascending).mp oldest
      exact .inr ⟨front, back, u, rfl, reached, first⟩
  refine ⟨?_, fired, fun job sent quiet result finished =>
    accounted.finished_unstopped sent quiet finished, ?_⟩
  · rintro front back u rfl reached
    obtain ⟨accounted', v, cancels, -⟩ := Worker.accounted_in_front moved kept reached
    exact ⟨v, cancels, accounted'.cancels cancels⟩
  · rintro front back u job rfl reached oldest unstarted
    refine ⟨(fired job.id).mpr ⟨front, back, u, rfl, reached, oldest⟩, ?_⟩
    intro phases
    obtain ⟨accounted', v, cancels, onward⟩ := Worker.accounted_in_front moved kept reached
    obtain ⟨n, few, after⟩ :=
      accounted'.cancelled cancels oldest unstarted phases onward kept
    rw [← Worker.takenBy_append reached] at after
    obtain ⟨outside, only⟩ := accounted.halted after
    refine ⟨outside, only, ?_⟩
    by_cases left : n - back.countP Move.isWork = 0
    · rw [left] at after
      cases after with
      | announced told => exact .inl told
    · obtain ⟨-, -, -, moves⟩ := after.pending left
      exact .inr ⟨by omega, moves⟩

/-- A campaign of one phase. -/
def onePhase : Settings := { phases := [.stress] }

/-- Of two jobs the first is cancelled in the queue, and the second starts. -/
theorem queued_job_cancelled : ∃ w, ({} : Worker).moves? ([.send onePhase, .register,
      .send onePhase, .register, .cancel] ++ List.replicate 6 (.work .never)) = some w ∧
    w.stopping = false ∧ .finished 0 (.error .cancelled) ∈ w.outputs ∧ 0 ∈ w.fired ∧
    w.thread = .holding ⟨1, onePhase⟩ := by
  have moved : ({} : Worker).moves? ([.send onePhase, .register, .send onePhase, .register] ++
      .cancel :: List.replicate 6 (.work .never)) = some _ := rfl
  obtain ⟨-, -, -, halts⟩ := cancel_stops_oldest moved rfl
  obtain ⟨fires, ends⟩ := halts _ _ _ ⟨0, onePhase⟩ rfl rfl
    ⟨List.mem_cons_self, by simp⟩ (.inl List.mem_cons_self)
  obtain ⟨-, -, told | ⟨few, -⟩⟩ := ends (by decide)
  · exact ⟨_, rfl, rfl, told, fires, rfl⟩
  · exact absurd few (by decide)

end SatLab.Campaign
