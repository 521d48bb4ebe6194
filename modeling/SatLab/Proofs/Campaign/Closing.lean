import SatLab.Proofs.Campaign.Cancellation
import SatLab.Proofs.Campaign.Waiting
/-!
The two ways of closing a worker. A host that closes the queue and waits lets the thread run every
job that was sent, and no stop signal fires. A host that first asks that no further job be started,
and then cancels, lets at most one job go on, whose stop signal has fired, wherever the thread is
between the two steps.
-/

set_option autoImplicit false
set_option relaxedAutoImplicit false

namespace SatLab.Campaign

/-- The job in hand that the thread has started and not taken off the list of registered jobs. -/
def Thread.running : Thread → List Job
  | between job _ _ | inPhase job _ _ _ | ended job _ => [job]
  | idle | holding _ | retired _ _ | exited | broken _ => []

/-- Along some steps from the start of a worker the thread has started a job. -/
def Job.StartedBy (job : Job) (ms : List Move) : Prop :=
  ∃ front back u, ms = front ++ back ∧ ({} : Worker).moves? front = some u ∧
    job ∈ u.thread.running

/-- A job that was sent is running, or it is off the list of registered jobs. -/
def Worker.Passed (w : Worker) (job : Job) : Prop :=
  job.id < w.nextId ∧
    (job ∈ w.thread.running ∨ job.id ∉ w.registered ∧ w.registering ≠ some job.id)

section Running

variable {w w' : Worker} {m : Move} {ms : List Move} {job : Job} {t : Thread}

private theorem Thread.listed_of_running (running : job ∈ t.running) : t.listed = [job] := by
  cases t with
  | between | inPhase | ended =>
    obtain rfl := List.mem_singleton.mp running
    rfl
  | idle | holding | retired | exited | broken => cases running

private theorem Worker.live_of_running (running : job ∈ w.thread.running) : w.isLive = true := by
  cases thread : w.thread with
  | exited | broken =>
    rw [thread] at running
    cases running
  | _ => rw [isLive, thread]

private theorem Worker.running_of_move? (moved : w.move? m = some w')
    (stopping : w.stopping = true) : w'.thread.running ⊆ w.thread.running := by
  rcases m.work_or_host with ⟨seen, rfl⟩ | host
  · cases works_of_work? moved with
    | begin _ kept => cases kept.symm.trans stopping
    | complete thread | halt thread | enter thread | report thread | fail thread =>
      rw [thread]
      exact List.Subset.refl _
    | take | leave | discard | breakOff | retire | announce => exact List.nil_subset _
  · rw [(host_frame host moved).1]
    exact List.Subset.refl _

private theorem Worker.running_of_moves? (moved : w.moves? ms = some w')
    (stopping : w.stopping = true) : w'.thread.running ⊆ w.thread.running := by
  have kept := keeps_of_moves?
    (P := fun v => v.stopping = true ∧ v.thread.running ⊆ w.thread.running)
    (fun step ⟨stopping, fewer⟩ => ⟨stopping_of_move? step stopping,
      List.Subset.trans (running_of_move? step stopping) fewer⟩) moved
    ⟨stopping, List.Subset.refl _⟩
  exact kept.2

private theorem Worker.passed_of_move? (moved : w.move? m = some w') (passed : w.Passed job) :
    (∃ f, w'.thread = .broken f) ∨ w'.Passed job := by
  obtain ⟨sent, place⟩ := passed
  rcases m.work_or_host with ⟨seen, rfl⟩ | host
  · cases works_of_work? moved with
    | breakOff => exact .inl ⟨_, rfl⟩
    | complete thread | halt thread | enter thread | report thread | fail thread =>
      rw [thread] at place
      exact .inr ⟨sent, place⟩
    | take thread | leave thread | discard thread | begin thread | announce thread =>
      rw [thread] at place
      exact .inr ⟨sent, .inr (place.resolve_left List.not_mem_nil)⟩
    | retire thread unlocked =>
      rw [thread] at place
      refine .inr ⟨sent, .inr ⟨?_, by simp [unlocked]⟩⟩
      rcases place with running | ⟨gone, -⟩
      · obtain rfl := List.mem_singleton.mp running
        simp
      · exact fun member => gone (List.mem_of_mem_filter member)
  · right
    rw [Worker.Passed, (host_frame host moved).1]
    cases hosts_of_move? host moved with
    | send =>
      refine ⟨Nat.lt_succ_of_lt sent, place.imp_right fun ⟨gone, _⟩ => ⟨gone, ?_⟩⟩
      exact fun same => sent.ne' (Option.some.inj same)
    | @register id locked =>
      refine ⟨sent, place.imp_right fun ⟨gone, unlocked⟩ => ⟨fun member => ?_, nofun⟩⟩
      rcases List.mem_append.mp member with before | last
      · exact gone before
      · exact unlocked (locked.trans (congrArg some (List.mem_singleton.mp last).symm))
    | cancel | receive | stop | close => exact ⟨sent, place⟩

private theorem Worker.passed_of_moves? (moved : w.moves? ms = some w')
    (whole : ∀ f, w'.thread ≠ .broken f) (passed : w.Passed job) : w'.Passed job := by
  have kept := keeps_of_moves? (P := fun v => (∃ f, v.thread = .broken f) ∨ v.Passed job)
    (fun step before => ?_) moved (.inr passed)
  · exact kept.resolve_left fun ⟨f, broken⟩ => whole f broken
  · rcases before with ⟨f, broken⟩ | passed
    · exact .inl ⟨f, broken_of_move? step broken⟩
    · exact passed_of_move? step passed

end Running

section Cancel

variable {jobs : List Job} {received : List Output} {w : Worker} {ms : List Move} {job : Job}

private theorem History.head_of_running (past : History jobs received w)
    (unlocked : w.registering = none) (running : job ∈ w.thread.running) :
    w.registered.head? = some job.id := by
  obtain ⟨ended, rs, accounts⟩ := past.accounts_of_live (Worker.live_of_running running)
  have registered := accounts.registered
  rw [unlocked, Option.toList_none, List.append_nil, Thread.listed_of_running running] at registered
  rw [registered]
  rfl

private theorem History.passed_of_running (past : History jobs received w)
    (running : job ∈ w.thread.running) : w.Passed job := by
  obtain ⟨ended, rs, accounts⟩ := past.accounts_of_live (Worker.live_of_running running)
  have inHand : job ∈ w.thread.inHand := by
    apply w.thread.listed_sublist.subset
    rw [Thread.listed_of_running running]
    exact List.mem_cons_self
  have sent : job ∈ jobs := by
    rw [accounts.sent]
    exact List.mem_append_right _ (List.mem_append_left _ inHand)
  have number : job.id ∈ List.range w.nextId := accounts.numbered ▸ List.mem_map_of_mem sent
  exact ⟨List.mem_range.mp number, .inl running⟩

theorem Job.StartedBy.running (started : job.StartedBy ms)
    (moved : ({} : Worker).moves? ms = some w) (whole : ∀ f, w.thread ≠ .broken f)
    (registered : job.id ∈ w.registered) : job ∈ w.thread.running := by
  obtain ⟨front, back, u, rfl, reached, running⟩ := started
  obtain ⟨u', reached', onward⟩ := Worker.moves?_append.mp moved
  obtain rfl := Option.some.inj (reached.symm.trans reached')
  have passed := (Worker.history_of_moves? reached).passed_of_running running
  obtain ⟨-, running | ⟨gone, -⟩⟩ := Worker.passed_of_moves? onward whole passed
  · exact running
  · exact absurd registered gone

private theorem Job.StartedBy.before_stop {front back : List Move}
    (started : job.StartedBy (front ++ Move.stop :: back)) : job.StartedBy front := by
  obtain ⟨front', back', t, split, reached, running⟩ := started
  rcases List.append_eq_append_iff.mp split with ⟨behind, rfl, rest⟩ | ⟨ahead, rfl, -⟩
  · obtain ⟨u, reached', onward⟩ := Worker.moves?_append.mp reached
    refine ⟨front, [], u, (List.append_nil front).symm, reached', ?_⟩
    cases behind with
    | nil =>
      obtain rfl := Option.some.inj onward
      exact running
    | cons m behind =>
      obtain ⟨rfl, -⟩ := List.cons.inj rest
      obtain ⟨v, stops, onward⟩ := Worker.moves?_cons.mp onward
      cases stops
      exact Worker.running_of_moves? onward rfl running
  · exact ⟨front', ahead, t, rfl, reached, running⟩

/-- A job that runs after the host has stopped the worker and cancelled ran at the cancel, and its
stop signal has fired. -/
private theorem Worker.running_of_cancel {front middle back : List Move} {u : Worker}
    (moved : ({} : Worker).moves? ((front ++ Move.stop :: middle) ++ Move.cancel :: back) = some w)
    (reached : ({} : Worker).moves? (front ++ Move.stop :: middle) = some u) :
    ∀ job ∈ w.thread.running, job ∈ u.thread.running ∧ job.id ∈ w.fired := by
  intro job running
  obtain ⟨u', reached', onward⟩ := moves?_append.mp moved
  obtain rfl := Option.some.inj (reached.symm.trans reached')
  obtain ⟨v, cancels, onward'⟩ := moves?_cons.mp onward
  have stopping : u.stopping = true := by
    obtain ⟨t, -, stops⟩ := moves?_append.mp reached
    obtain ⟨t', stop, onward⟩ := moves?_cons.mp stops
    cases stop
    exact keeps_of_moves? stopping_of_move? onward rfl
  have ran := running_of_moves? onward stopping running
  have unlocked : u.registering = none := by
    cases hosts_of_move? Move.cancel_ne_work cancels with
    | cancel unlocked => exact unlocked
  have first := (history_of_moves? reached).head_of_running unlocked ran
  have fires : job.id ∈ v.fired := (mem_fired_of_move? cancels).mpr (.inr ⟨rfl, first⟩)
  exact ⟨ran, (mem_fired_of_moves? onward').mpr (.inl fires)⟩

end Cancel

section Alone

variable {jobs : List Job} {received : List Output} {u w : Worker} {ms : List Move}

private theorem Worker.unstopped_of_moves? (moved : u.moves? ms = some w) (absent : Move.stop ∉ ms)
    (kept : u.stopping = false) : w.stopping = false := by
  induction ms generalizing u with
  | nil =>
    obtain rfl := Option.some.inj moved
    exact kept
  | cons m ms ih =>
    obtain ⟨other, absent⟩ := List.ne_and_not_mem_of_not_mem_cons absent
    obtain ⟨v, step, onward⟩ := moves?_cons.mp moved
    refine ih onward absent ?_
    rcases m.work_or_host with ⟨seen, rfl⟩ | host
    · cases works_of_work? step <;> exact kept
    · cases hosts_of_move? host step with
      | stop => exact absurd rfl other
      | send | register | cancel | receive | close => exact kept

private theorem Worker.exited_or_moves (closed : w.closed = true) (unlocked : w.registering = none)
    (whole : ∀ f, w.thread ≠ .broken f) :
    w.thread = .exited ∨ ∃ next, w.work? w.ownSignal = some next := by
  cases own : w.work? w.ownSignal with
  | some next => exact .inr ⟨next, rfl⟩
  | none =>
    rcases stuck_cases unlocked (work?_eq_none own) with ⟨idle, empty⟩ | exited | ⟨f, broken⟩
    · rw [work?, idle] at own
      simp [empty, closed] at own
    · exact .inl exited
    · exact absurd broken (whole f)

private theorem History.all_delivered (past : History jobs received w) (kept : w.stopping = false)
    (exited : w.thread = .exited) : ∃ ended : List Delivery, jobs = ended.map Delivery.job ∧
      received ++ w.outputs = ended.flatMap Delivery.outputs ∧
      ∀ d ∈ ended, d.job.Over (d.job.id ∈ w.fired) d.reports d.result := by
  obtain ⟨ended, rs, accounts⟩ := past.accounts kept (by simp [exited])
  have sent := accounts.sent
  have carried := accounts.carried
  rw [exited, accounts.drained exited] at sent
  rw [exited] at carried
  exact ⟨ended, sent.trans (List.append_nil _), carried.trans (List.append_nil _),
    accounts.delivered⟩

end Alone

namespace Worker

section Host

variable {w next : Worker} {settings : Settings} {id : Nat} {ms : List Move}

/-- A submission is a send and a registration with no step of the thread between them, and it
returns the number of the job that is sent. -/
theorem submit_eq_ok_iff : w.submit settings = .ok (id, next) ↔
    w.moves? [.send settings, .register] = some next ∧ id = w.nextId := by
  have moves : w.moves? [.send settings, .register] = w.send? settings >>= register? := by
    simp [moves?, move?]
  rw [moves, submit]
  cases w.send? settings >>= register? with
  | none => simp
  | some registered => simp [eq_comm, and_comm]

theorem submit_eq_error_iff {e : Error} : w.submit settings = .error e ↔
    w.move? (.send settings) = none ∧ e = .workerStopped := by
  have sent : w.send? settings >>= register? = none ↔ w.send? settings = none := by
    unfold send?
    split <;> simp [register?]
  rw [submit, move?]
  cases refused : w.send? settings >>= register? with
  | none => simp [sent.mp refused, eq_comm]
  | some registered =>
    have live : w.send? settings ≠ none := fun none => by
      rw [sent.mpr none] at refused
      cases refused
    simp [live]

private theorem moves?_settle (moved : w.moves? ms = some next) : ∃ signals : List Signal,
    w.moves? (ms ++ signals.map Move.work) = some next.settle ∧
      ∀ seen, next.settle.work? seen = none := by
  obtain ⟨⟨signals, alone⟩, stuck⟩ := next.runsTo_settle
  exact ⟨signals, moves?_append.mpr ⟨next, moved, alone⟩, stuck⟩

theorem moves?_shutdown (unlocked : w.registering = none) : ∃ signals : List Signal,
    w.moves? (.close :: signals.map Move.work) = some w.shutdown ∧
      ∀ seen, w.shutdown.work? seen = none := by
  have closed : w.moves? [.close] = some w.close := by
    simp [moves?, move?, unlocked]
  exact moves?_settle closed

/-- A worker that is abandoned is stopped, its oldest job is cancelled and the queue is closed, and
then the thread moves until it can move no more. -/
theorem moves?_abandon (unlocked : w.registering = none) : ∃ signals : List Signal,
    w.moves? (.stop :: .cancel :: .close :: signals.map Move.work) = some w.abandon ∧
      ∀ seen, w.abandon.work? seen = none := by
  have kept : w.stop.cancel.registering = none := by
    rw [cancel_eq]
    exact unlocked
  have closed : w.moves? [.stop, .cancel, .close] = some w.stop.cancel.close := by
    have stopped : w.stop.registering = none := unlocked
    simp [moves?, move?, stopped, kept]
  exact moves?_settle closed

end Host

end Worker

/-- The two ways of closing a worker, however the steps of host and thread interleave, as long as no
job breaks off. Closing the queue of a worker that is not stopped fires no stop signal; the thread
is not held up before it has ended, which takes a bounded number of its steps, and then every job
that was sent is over, with its outputs and its end sent. Once the host has asked that no further
job be started, none is. Once it has also cancelled, every job that has been started and is still
registered has a stop signal that has fired, and only the job that ran at the cancel, if there was
one, can still run. -/
theorem closing_drains_or_abandons {ms : List Move} {w : Worker}
    (moved : ({} : Worker).moves? ms = some w) (whole : ∀ f, w.thread ≠ .broken f) :
    (∀ (front : List Move) (signals : List Signal) (u : Worker),
      ms = front ++ Move.close :: signals.map Move.work →
      ({} : Worker).moves? front = some u → Move.stop ∉ front →
      w.fired = u.fired ∧ signals.length + w.steps ≤ u.steps ∧
      (w.thread = .exited ∨ ∃ next, w.work? w.ownSignal = some next) ∧
      (w.thread = .exited → ∃ ended : List Delivery,
        ({} : Worker).sentBy ms = ended.map Delivery.job ∧
        ({} : Worker).takenBy ms ++ w.outputs = ended.flatMap Delivery.outputs ∧
        ∀ d ∈ ended, d.job.Over (d.job.id ∈ u.fired) d.reports d.result)) ∧
    (∀ front back, ms = front ++ Move.stop :: back →
      ∀ job : Job, job.StartedBy ms → job.StartedBy front) ∧
    ∀ front middle back u, ms = (front ++ Move.stop :: middle) ++ Move.cancel :: back →
      ({} : Worker).moves? (front ++ Move.stop :: middle) = some u →
      (∀ job : Job, job.StartedBy ms → job.id ∈ w.registered → job.id ∈ w.fired) ∧
      ∀ job ∈ w.thread.running, job ∈ u.thread.running ∧ job.id ∈ w.fired := by
  refine ⟨?_, fun front back split job started => (split ▸ started).before_stop, ?_⟩
  · rintro front signals u rfl reached absent
    obtain ⟨u', reached', onward⟩ := Worker.moves?_append.mp moved
    obtain rfl := Option.some.inj (reached.symm.trans reached')
    obtain ⟨v, closes, alone⟩ := Worker.moves?_cons.mp onward
    have host : ∀ seen, Move.close ≠ .work seen := fun _ => nofun
    cases Worker.hosts_of_move? host closes with
    | close unlocked =>
      obtain ⟨fired, registering, closed, -, few⟩ := Worker.alone_of_moves? alone
      have kept : w.stopping = false := Worker.unstopped_of_moves? moved (by simp [absent]) rfl
      refine ⟨fired, few, Worker.exited_or_moves closed (registering.trans unlocked) whole, ?_⟩
      intro exited
      obtain ⟨ended, sent, carried, delivered⟩ :=
        (Worker.history_of_moves? moved).all_delivered kept exited
      exact ⟨ended, sent, carried, fired ▸ delivered⟩
  · rintro front middle back u rfl reached
    have only := Worker.running_of_cancel moved reached
    refine ⟨fun job started registered => ?_, only⟩
    exact (only job (started.running moved whole registered)).2

/-- The steps up to where the first of two jobs is started. -/
def twoSubmitted : List Move :=
  [.send onePhase, .register, .send onePhase, .register, .work .never, .work .never]

/-- The host stops a worker between the start of a job and its first phase, and cancels behind it:
the job runs on and its stop signal has fired. Where the host only closes the queue, the job in it
is run. -/
theorem started_job_abandoned :
    (∃ w, ({} : Worker).moves?
        ((twoSubmitted ++ Move.stop :: [Move.work .never]) ++ Move.cancel :: [Move.close]) =
          some w ∧
      w.thread.running = [⟨0, onePhase⟩] ∧ w.registered = [0, 1] ∧ 0 ∈ w.fired) ∧
    ∃ w, ({} : Worker).moves? ([Move.send noPhases, Move.register] ++
        Move.close :: (List.replicate 6 Signal.never).map Move.work) = some w ∧
      w.thread = .exited ∧ w.fired = [] ∧
      ∃ ended : List Delivery, [⟨0, noPhases⟩] = ended.map Delivery.job ∧
        w.outputs = ended.flatMap Delivery.outputs := by
  constructor
  · have moved : ({} : Worker).moves? ((twoSubmitted ++ Move.stop :: [Move.work .never]) ++
      Move.cancel :: [Move.close]) = some _ := rfl
    obtain ⟨-, -, abandons⟩ := closing_drains_or_abandons moved fun _ => Thread.noConfusion
    obtain ⟨-, only⟩ := abandons twoSubmitted [Move.work .never] [Move.close] _ rfl rfl
    have fires := (only ⟨0, onePhase⟩ List.mem_cons_self).2
    exact ⟨_, moved, rfl, rfl, fires⟩
  · have moved : ({} : Worker).moves? ([Move.send noPhases, Move.register] ++
      Move.close :: (List.replicate 6 Signal.never).map Move.work) = some _ := rfl
    obtain ⟨drains, -⟩ := closing_drains_or_abandons moved fun _ => Thread.noConfusion
    obtain ⟨fired, -, -, exits⟩ := drains _ _ _ rfl rfl (by simp)
    obtain ⟨ended, sent, carried, -⟩ := exits rfl
    exact ⟨_, moved, rfl, fired, ended, sent, carried⟩

end SatLab.Campaign
