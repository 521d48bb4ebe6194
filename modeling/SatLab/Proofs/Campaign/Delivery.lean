import Mathlib.Data.List.Nodup
import SatLab.Proofs.Campaign.History
import SatLab.Proofs.Campaign.Job
/-!
What the worker delivers, however the steps of host and thread interleave. Every job that was sent
is over, in the hand of the thread or in the queue, in this order; the outputs are those of the
jobs that are over and of the job in hand, in the same order. The list of registered jobs holds the
jobs that are not retired, up to one that the host has sent and is about to register.
-/

set_option autoImplicit false
set_option relaxedAutoImplicit false

namespace SatLab.Campaign

def Job.outputs (job : Job) (rs : List PhaseReport) : List Output := rs.map (.phase job.id)

/-- A job that is over, with the results of its phases and its own. -/
structure Delivery where
  job : Job
  reports : List PhaseReport
  result : Except Error CampaignReport

/-- The outputs of a job that is over: those of its phases and then its end. -/
def Delivery.outputs (d : Delivery) : List Output :=
  d.job.outputs d.reports ++ [.finished d.job.id d.result]

namespace Thread

/-- The job in the hand of the thread, whose end is not announced. -/
def inHand : Thread → List Job
  | holding job | between job _ _ | inPhase job _ _ _ | ended job _ | retired job _ => [job]
  | idle | exited | broken _ => []

/-- The job in the hand of the thread that has not been taken off the list of registered jobs. -/
def listed : Thread → List Job
  | holding job | between job _ _ | inPhase job _ _ _ | ended job _ => [job]
  | idle | retired _ _ | exited | broken _ => []

/-- The job in hand has the results `rs` so far. -/
def Stands (fired : Job → Prop) (rs : List PhaseReport) : Thread → Prop
  | idle | exited | holding _ => rs = []
  | between job rest p => job.Underway (fired job) rs rest p
  | inPhase job phase rest p => job.Underway (fired job) rs (phase :: rest) p
  | ended job result | retired job result => job.Over (fired job) rs result
  | broken _ => False

theorem Stands.mono {fired fired' : Job → Prop} {rs : List PhaseReport} {t : Thread}
    (later : ∀ job, fired job → fired' job) (stands : t.Stands fired rs) :
    t.Stands fired' rs := by
  cases t with
  | idle | exited | holding | broken => exact stands
  | between job | inPhase job => exact Job.Underway.mono (later job) stands
  | ended job | retired job => exact Job.Over.mono (later job) stands

end Thread

/-- The accounts of a worker: `ended` are the jobs that are over and `rs` the results of the job in
hand. -/
structure Accounts (jobs : List Job) (received : List Output) (w : Worker) (ended : List Delivery)
    (rs : List PhaseReport) : Prop where
  sent : jobs = ended.map Delivery.job ++ (w.thread.inHand ++ w.queue)
  carried : received ++ w.outputs =
    ended.flatMap Delivery.outputs ++ w.thread.inHand.flatMap fun job => job.outputs rs
  delivered : ∀ d ∈ ended, d.job.Over (d.job.id ∈ w.fired) d.reports d.result
  stands : w.thread.Stands (fun job => job.id ∈ w.fired) rs
  registered : w.registered ++ w.registering.toList = (w.thread.listed ++ w.queue).map Job.id
  numbered : jobs.map Job.id = List.range w.nextId
  drained : w.thread = .exited → w.queue = []

section Steps

variable {jobs : List Job} {received : List Output} {w w' : Worker} {ended : List Delivery}
  {rs : List PhaseReport}

theorem accounts_start : Accounts [] [] {} [] [] where
  sent := rfl
  carried := rfl
  delivered := by simp
  stands := rfl
  registered := rfl
  numbered := rfl
  drained _ := rfl

theorem Accounts.send {settings : Settings} (accounts : Accounts jobs received w ended rs)
    (moved : w.send? settings = some w') :
    Accounts (jobs ++ [⟨w.nextId, settings⟩]) received w' ended rs := by
  obtain ⟨sent, carried, delivered, stands, registered, numbered, drained⟩ := accounts
  unfold Worker.send? at moved
  split at moved
  · cases moved
  · rename_i open_
    simp only [Bool.or_eq_true, Bool.not_eq_true', not_or, Option.not_isSome_iff_eq_none,
      Bool.not_eq_false] at open_
    obtain ⟨⟨-, unlocked⟩, live⟩ := open_
    cases moved
    refine ⟨?_, carried, delivered, stands, ?_, ?_, fun exited => ?_⟩
    · simp [sent]
    · rw [unlocked, Option.toList_none, List.append_nil] at registered
      simp [registered]
    · rw [List.map_append, numbered, List.range_succ]
      rfl
    · rw [Worker.isLive, exited] at live
      cases live

theorem Accounts.register (accounts : Accounts jobs received w ended rs)
    (moved : w.register? = some w') : Accounts jobs received w' ended rs := by
  obtain ⟨id, locked, rfl⟩ := Option.map_eq_some_iff.mp moved
  have registered := accounts.registered
  rw [locked] at registered
  exact { accounts with registered := (List.append_nil _).trans registered }

theorem Accounts.cancel (accounts : Accounts jobs received w ended rs) :
    Accounts jobs received w.cancel ended rs := by
  unfold Worker.cancel
  split
  · rename_i first rest listed
    have later : ∀ job : Job, job.id ∈ w.fired → job.id ∈ first :: w.fired := fun job fires =>
      List.mem_cons_of_mem first fires
    exact { accounts with
      delivered := fun d member => (accounts.delivered d member).mono (later d.job)
      stands := accounts.stands.mono later }
  · exact accounts

theorem Accounts.receive {o : Output} {rest : List Output}
    (accounts : Accounts jobs received w ended rs) (outputs : w.outputs = o :: rest) :
    Accounts jobs (received ++ [o]) { w with outputs := rest } ended rs := by
  have carried := accounts.carried
  rw [outputs, List.append_cons] at carried
  exact { accounts with carried }

theorem Accounts.stop (accounts : Accounts jobs received w ended rs) :
    Accounts jobs received w.stop ended rs :=
  { accounts with }

theorem Accounts.close (accounts : Accounts jobs received w ended rs) :
    Accounts jobs received w.close ended rs :=
  { accounts with }

theorem Accounts.host {m : Move} (accounts : Accounts jobs received w ended rs)
    (host : ∀ seen, m ≠ .work seen) (moved : w.move? m = some w') :
    Accounts (jobs ++ m.sent w) (received ++ m.taken w) w' ended rs := by
  cases m with
  | send settings => simpa [Move.sent, Move.taken] using accounts.send moved
  | register => simpa [Move.sent, Move.taken] using accounts.register moved
  | cancel =>
    rw [Worker.move?] at moved
    split at moved <;> cases moved
    simpa [Move.sent, Move.taken] using accounts.cancel
  | receive =>
    rw [Worker.move?] at moved
    cases outputs : w.outputs with
    | nil => simp [outputs] at moved
    | cons o rest =>
      rw [outputs] at moved
      cases moved
      simpa [Move.sent, Move.taken, outputs] using accounts.receive outputs
  | stop =>
    cases moved
    simpa [Move.sent, Move.taken] using accounts.stop
  | close =>
    rw [Worker.move?] at moved
    split at moved <;> cases moved
    simpa [Move.sent, Move.taken] using accounts.close
  | work seen => exact absurd rfl (host seen)

theorem Accounts.nodup (accounts : Accounts jobs received w ended rs) :
    ((w.thread.inHand ++ w.queue).map Job.id).Nodup := by
  have all : (jobs.map Job.id).Nodup := accounts.numbered ▸ List.nodup_range
  rw [accounts.sent, List.map_append] at all
  exact all.of_append_right

/-- A step of the thread keeps the accounts, unless it discards a job, because the host wants no
further one, or the job in hand breaks off. -/
theorem Accounts.work {seen : Signal} (accounts : Accounts jobs received w ended rs)
    (kept : ∀ job, w.thread = .holding job → w.stopping = false)
    (whole : ∀ f, w'.thread ≠ .broken f) (works : w.Works seen w') :
    ∃ ended' rs', Accounts jobs received w' ended' rs' := by
  have nodup := accounts.nodup
  obtain ⟨sent, carried, delivered, stands, registered, numbered, -⟩ := accounts
  cases works with
  | discard thread stopping => cases (kept _ thread).symm.trans stopping
  | breakOff => exact absurd rfl (whole _)
  | take thread queue =>
    rw [thread] at sent carried stands registered
    rw [queue] at sent registered
    -- nothing is in hand in front of the queue, so that the next job starts without results
    have none : rs = [] := stands
    subst none
    exact ⟨ended, [], sent, by simpa [Thread.inHand, Job.outputs] using carried,
      delivered, rfl, registered, numbered, nofun⟩
  | leave thread queue =>
    rw [thread] at sent carried stands registered
    exact ⟨ended, rs, sent, carried, delivered, stands, registered, numbered,
      fun _ => queue⟩
  | @begin job thread =>
    rw [thread] at sent carried stands registered
    have none : rs = [] := stands
    subst none
    exact ⟨ended, [], sent, carried, delivered, job.underway_start _, registered,
      numbered, nofun⟩
  | complete thread =>
    rw [thread] at sent carried stands registered
    exact ⟨ended, rs, sent, carried, delivered, ⟨_, _, stands, .completed⟩, registered,
      numbered, nofun⟩
  | halt thread fires =>
    rw [thread] at sent carried stands registered
    exact ⟨ended, rs, sent, carried, delivered, ⟨_, _, stands, .stopped fires⟩,
      registered, numbered, nofun⟩
  | enter thread =>
    rw [thread] at sent carried stands registered
    exact ⟨ended, rs, sent, carried, delivered, stands, registered, numbered, nofun⟩
  | @report job phase rest p r sig thread quiet ran =>
    rw [thread] at sent carried stands registered
    refine ⟨ended, rs ++ [r], sent, ?_, delivered, Job.Underway.next stands quiet ran,
      registered, numbered, nofun⟩
    simp only [← List.append_assoc, carried]
    simp [Thread.inHand, Job.outputs]
  | fail thread quiet ran =>
    rw [thread] at sent carried stands registered
    exact ⟨ended, rs, sent, carried, delivered, ⟨_, _, stands, .failed quiet ran⟩,
      registered, numbered, nofun⟩
  | @retire job result thread unlocked =>
    rw [thread] at sent carried stands registered nodup
    refine ⟨ended, rs, sent, carried, delivered, stands, ?_, numbered, nofun⟩
    rw [unlocked, Option.toList_none, List.append_nil] at registered
    -- jobs have different numbers, so that the filter takes off the job in hand and no other
    obtain ⟨absent, -⟩ := List.nodup_cons.mp nodup
    have others : ∀ id ∈ w.queue.map Job.id, (id != job.id) = true := fun id member =>
      bne_iff_ne.mpr fun same => absent (same ▸ member)
    simp only [unlocked, registered, Option.toList_none, List.append_nil]
    change (job.id :: w.queue.map Job.id).filter (· != job.id) = w.queue.map Job.id
    rw [List.filter_cons_of_neg (by simp), List.filter_eq_self.mpr others]
  | @announce job result thread =>
    rw [thread] at sent carried stands registered
    refine ⟨ended ++ [⟨job, rs, result⟩], [], ?_, ?_, ?_, rfl, registered, numbered,
      nofun⟩
    · simp [sent, Thread.inHand]
    · simp only [← List.append_assoc, carried]
      simp [Thread.inHand, Delivery.outputs]
    · intro d member
      rcases List.mem_append.mp member with earlier | last
      · exact delivered d earlier
      · cases List.mem_singleton.mp last
        exact stands

end Steps

section Ends

variable {jobs : List Job} {received : List Output} {w : Worker} {ended : List Delivery}
  {rs : List PhaseReport}

theorem Accounts.job_eq {a b : Job} (accounts : Accounts jobs received w ended rs)
    (sent : a ∈ jobs) (sent' : b ∈ jobs) (same : a.id = b.id) : a = b := by
  have all : (jobs.map Job.id).Nodup := accounts.numbered ▸ List.nodup_range
  exact List.inj_on_of_nodup_map all sent sent' same

theorem Accounts.finished_iff {id : Nat} {result : Except Error CampaignReport}
    (accounts : Accounts jobs received w ended rs) :
    .finished id result ∈ received ++ w.outputs ↔
      ∃ d ∈ ended, d.job.id = id ∧ d.result = result := by
  rw [accounts.carried, List.mem_append, List.mem_flatMap, List.mem_flatMap]
  constructor
  · rintro (⟨d, member, out⟩ | ⟨job, -, out⟩)
    · rw [Delivery.outputs, List.mem_append, List.mem_singleton] at out
      rcases out with phase | last
      · obtain ⟨r, -, other⟩ := List.mem_map.mp phase
        cases other
      · obtain ⟨rfl, rfl⟩ := Output.finished.inj last
        exact ⟨d, member, rfl, rfl⟩
    · obtain ⟨r, -, other⟩ := List.mem_map.mp out
      cases other
  · rintro ⟨d, member, rfl, rfl⟩
    exact .inl ⟨d, member, List.mem_append_right _ List.mem_cons_self⟩

theorem Accounts.ids_ascending (accounts : Accounts jobs received w ended rs) :
    (ended.map (·.job.id) ++ (w.thread.inHand ++ w.queue).map Job.id).Pairwise (· < ·) := by
  have all : (jobs.map Job.id).Pairwise (· < ·) := by
    rw [accounts.numbered]
    exact List.pairwise_lt_range
  rwa [accounts.sent, List.map_append, List.map_map] at all

theorem Accounts.ended_lt {d : Delivery} {job : Job} (accounts : Accounts jobs received w ended rs)
    (among : d ∈ ended) (left : job ∈ w.thread.inHand ++ w.queue) : d.job.id < job.id := by
  have across := (List.pairwise_append.mp accounts.ids_ascending).2.2
  exact across _ (List.mem_map_of_mem among) _ (List.mem_map_of_mem left)

theorem Accounts.delivery_eq {d d' : Delivery} (accounts : Accounts jobs received w ended rs)
    (among : d ∈ ended) (among' : d' ∈ ended) (same : d.job.id = d'.job.id) : d = d' := by
  have ascending := (List.pairwise_append.mp accounts.ids_ascending).1
  have distinct : (ended.map (·.job.id)).Nodup := ascending.imp Nat.ne_of_lt
  exact List.inj_on_of_nodup_map distinct among among' same

end Ends

section Whole

variable {jobs : List Job} {received : List Output} {w : Worker}

private theorem History.accounts_of_whole (past : History jobs received w)
    (kept : w.thread = .exited → w.stopping = false) (whole : ∀ f, w.thread ≠ .broken f) :
    ∃ ended rs, Accounts jobs received w ended rs := by
  induction past with
  | start => exact ⟨[], [], accounts_start⟩
  | @move jobs received w w' m past moved ih =>
    -- neither condition is ever won back, so that both held in front of the last step too
    have kept' : w.thread = .exited → w.stopping = false := fun exited =>
      Worker.kept_of_move? moved (kept (Worker.exited_of_move? moved exited))
    have whole' : ∀ f, w.thread ≠ .broken f := fun f broken =>
      whole f (Worker.broken_of_move? moved broken)
    obtain ⟨ended, rs, accounts⟩ := ih kept' whole'
    rcases m.work_or_host with ⟨seen, rfl⟩ | host
    · simp only [Move.sent, Move.taken, List.append_nil]
      have works := Worker.works_of_work? moved
      refine accounts.work (fun job held => ?_) whole works
      cases works with
      | discard thread stopping => exact kept rfl
      | begin thread unstopped => exact unstopped
      | _ => simp_all
    · exact ⟨ended, rs, accounts.host host moved⟩

theorem History.accounts (past : History jobs received w) (kept : w.stopping = false)
    (whole : ∀ f, w.thread ≠ .broken f) : ∃ ended rs, Accounts jobs received w ended rs :=
  past.accounts_of_whole (fun _ => kept) whole

/-- As long as the thread is not over, the accounts are kept, whether the host has stopped the
worker or not. -/
theorem History.accounts_of_live (past : History jobs received w) (live : w.isLive = true) :
    ∃ ended rs, Accounts jobs received w ended rs := by
  apply past.accounts_of_whole
  · intro exited
    rw [Worker.isLive, exited] at live
    cases live
  · intro f broken
    rw [Worker.isLive, broken] at live
    cases live

end Whole

/-- However the steps of the host and of the thread interleave, as long as the host does not stop
the worker and no job breaks off: the jobs that were sent are over, in hand or in the queue, in this
order, and under different numbers; the outputs, received or not, are those of the jobs that are
over, each with the results of its phases in order and then its one end, and then those of the job
in hand so far; while the list of registered jobs is not locked, it holds the job in hand, unless
that is retired, and the queue. The thread is held up only by an empty queue with every job over,
and each of its steps brings it closer to that. -/
theorem History.delivers {jobs : List Job} {received : List Output} {w : Worker}
    (past : History jobs received w) (kept : w.stopping = false)
    (whole : ∀ f, w.thread ≠ .broken f) :
    (∃ (ended : List Delivery) (rs : List PhaseReport),
      jobs = ended.map Delivery.job ++ (w.thread.inHand ++ w.queue) ∧
      received ++ w.outputs =
        ended.flatMap Delivery.outputs ++ w.thread.inHand.flatMap (fun job => job.outputs rs) ∧
      (∀ d ∈ ended, d.job.Over (d.job.id ∈ w.fired) d.reports d.result) ∧
      w.thread.Stands (fun job => job.id ∈ w.fired) rs) ∧
    jobs.map Job.id = List.range w.nextId ∧
    (w.registering = none → w.registered = (w.thread.listed ++ w.queue).map Job.id) ∧
    (w.registering = none → (∀ seen, w.work? seen = none) →
      w.thread.inHand = [] ∧ w.queue = []) ∧
    ∀ seen next, w.work? seen = some next → next.steps < w.steps := by
  obtain ⟨ended, rs, accounts⟩ := past.accounts kept whole
  refine ⟨⟨ended, rs, accounts.sent, accounts.carried, accounts.delivered, accounts.stands⟩,
    accounts.numbered, fun unlocked => ?_, fun unlocked stuck => ?_,
    fun seen next moved => Worker.steps_work?_lt moved⟩
  · have registered := accounts.registered
    rwa [unlocked, Option.toList_none, List.append_nil] at registered
  · rcases Worker.stuck_cases unlocked stuck with ⟨idle, empty⟩ | exited | ⟨f, broken⟩
    · exact ⟨congrArg Thread.inHand idle, empty⟩
    · exact ⟨congrArg Thread.inHand exited, accounts.drained exited⟩
    · exact absurd broken (whole f)

/-- A campaign that examines the rigidity. -/
def rigidityOnly : Settings := { phases := [.rigidity] }

/-- A job that the thread has run before the host registers it is taken off the list all the same,
and the next job stands at its head. The host has received the output of its phase, and its end
waits behind that. -/
theorem early_job_delivered : ∃ w r, r.phase = .rigidity ∧
    History [⟨0, rigidityOnly⟩, ⟨1, rigidityOnly⟩] [.phase 0 r] w ∧
    w.outputs = [.finished 0 (.ok (rigidityOnly.initial.add r).report)] ∧
    w.thread = .holding ⟨1, rigidityOnly⟩ ∧ w.registered = [1] := by
  have permits : rigidityOnly.Permits rigidityOnly.initial :=
    ⟨by decide, by decide, by decide, by decide⟩
  obtain ⟨r, kind, ran⟩ := runPhase_rigidity_returns permits (by rfl) (by rfl)
  rw [kind] at ran
  let job : Job := ⟨0, rigidityOnly⟩
  let report := (rigidityOnly.initial.add r).report
  have sent : History [job] [] { queue := [job], registering := some 0, nextId := 1 } :=
    .move (.send rigidityOnly) .start rfl
  have taken : History [job] [] { thread := .holding job, registering := some 0, nextId := 1 } :=
    .move (.work .never) sent rfl
  have begun : History [job] []
      { thread := .between job [.rigidity] rigidityOnly.initial, registering := some 0
        nextId := 1 } :=
    .move (.work .never) taken rfl
  let inside : Worker :=
    { thread := .inPhase job .rigidity [] rigidityOnly.initial, status := .running 0 .rigidity
      registering := some 0, nextId := 1 }
  have entered : History [job] [] inside := .move (.work .never) begun rfl
  have reported : History [job] []
      { outputs := [.phase 0 r], thread := .between job [] (rigidityOnly.initial.add r)
        status := .running 0 .rigidity, registering := some 0, nextId := 1 } :=
    .move (.work .never) entered (Worker.work?_of_ran (w := inside) rfl ran)
  have ended : History [job] []
      { outputs := [.phase 0 r], thread := .ended job (.ok report)
        status := .running 0 .rigidity, registering := some 0, nextId := 1 } :=
    .move (.work .never) reported rfl
  have registered : History [job] []
      { outputs := [.phase 0 r], thread := .ended job (.ok report)
        status := .running 0 .rigidity, registered := [0], nextId := 1 } :=
    .move .register ended rfl
  have retired : History [job] []
      { outputs := [.phase 0 r], thread := .retired job (.ok report)
        status := .running 0 .rigidity, nextId := 1 } :=
    .move (.work .never) registered rfl
  have announced : History [job] []
      { outputs := [.phase 0 r, .finished 0 (.ok report)], nextId := 1 } :=
    .move (.work .never) retired rfl
  have received : History [job] [.phase 0 r]
      { outputs := [.finished 0 (.ok report)], nextId := 1 } :=
    .move .receive announced rfl
  have sent' : History [job, ⟨1, rigidityOnly⟩] [.phase 0 r]
      { queue := [⟨1, rigidityOnly⟩], registering := some 1
        outputs := [.finished 0 (.ok report)], nextId := 2 } :=
    .move (.send rigidityOnly) received rfl
  have registered' : History [job, ⟨1, rigidityOnly⟩] [.phase 0 r]
      { queue := [⟨1, rigidityOnly⟩], registered := [1]
        outputs := [.finished 0 (.ok report)], nextId := 2 } :=
    .move .register sent' rfl
  have taken' : History [job, ⟨1, rigidityOnly⟩] [.phase 0 r]
      { thread := .holding ⟨1, rigidityOnly⟩, registered := [1]
        outputs := [.finished 0 (.ok report)], nextId := 2 } :=
    .move (.work .never) registered' rfl
  obtain ⟨-, -, listed, -⟩ := taken'.delivers rfl fun _ => Thread.noConfusion
  exact ⟨_, r, kind, taken', rfl, rfl, listed rfl⟩

end SatLab.Campaign
