import SatLab.Campaign.Worker
/-!
The steps of a worker and what they lead to. The thread has one way on from each place, so that a
property of all histories is one of each of these ways and of the few moves of the host.
-/

set_option autoImplicit false
set_option relaxedAutoImplicit false

namespace SatLab.Campaign

inductive Worker.Works (w : Worker) (seen : Signal) : Worker → Prop
  | take {job : Job} {rest : List Job} (thread : w.thread = .idle) (queue : w.queue = job :: rest) :
      w.Works seen { w with queue := rest, thread := .holding job }
  | leave (thread : w.thread = .idle) (queue : w.queue = []) (closed : w.closed = true) :
      w.Works seen w.exit
  | discard {job : Job} (thread : w.thread = .holding job) (stopping : w.stopping = true) :
      w.Works seen w.exit
  | begin {job : Job} (thread : w.thread = .holding job) (kept : w.stopping = false) :
      w.Works seen { w with thread := .between job job.settings.selected job.settings.initial }
  | complete {job : Job} {p : Progress} (thread : w.thread = .between job [] p) :
      w.Works seen { w with thread := .ended job (.ok p.report) }
  | halt {job : Job} {phase : Phase} {rest : List Phase} {p : Progress}
      (thread : w.thread = .between job (phase :: rest) p) (fires : job.id ∈ w.fired) :
      w.Works seen { w with thread := .ended job (.error .cancelled) }
  | enter {job : Job} {phase : Phase} {rest : List Phase} {p : Progress}
      (thread : w.thread = .between job (phase :: rest) p) (quiet : job.id ∉ w.fired) :
      w.Works seen { w with
        status := .running job.id phase, thread := .inPhase job phase rest p }
  | report {job : Job} {phase : Phase} {rest : List Phase} {p : Progress} {r : PhaseReport}
      {sig : Signal} (thread : w.thread = .inPhase job phase rest p)
      (quiet : job.id ∈ w.fired ∨ seen = .never)
      (ran : runPhase job.settings p phase seen = .ok (r, sig)) :
      w.Works seen { w with
        outputs := w.outputs ++ [.phase job.id r], thread := .between job rest (p.add r) }
  | fail {job : Job} {phase : Phase} {rest : List Phase} {p : Progress} {e : Error}
      (thread : w.thread = .inPhase job phase rest p) (quiet : job.id ∈ w.fired ∨ seen = .never)
      (ran : runPhase job.settings p phase seen = .error e) (proper : e.fault? = none) :
      w.Works seen { w with thread := .ended job (.error e.normalised) }
  | breakOff {job : Job} {phase : Phase} {rest : List Phase} {p : Progress} {e : Error} {f : Fault}
      (thread : w.thread = .inPhase job phase rest p) (quiet : job.id ∈ w.fired ∨ seen = .never)
      (ran : runPhase job.settings p phase seen = .error e) (fault : e.fault? = some f) :
      w.Works seen { w with thread := .broken f }
  | retire {job : Job} {result : Except Error CampaignReport}
      (thread : w.thread = .ended job result) (unlocked : w.registering = none) :
      w.Works seen { w with
        registered := w.registered.filter (· != job.id), thread := .retired job result }
  | announce {job : Job} {result : Except Error CampaignReport}
      (thread : w.thread = .retired job result) :
      w.Works seen { w with
        status := .idle, outputs := w.outputs ++ [.finished job.id result], thread := .idle }

theorem Worker.works_of_work? {w w' : Worker} {seen : Signal} (moved : w.work? seen = some w') :
    w.Works seen w' := by
  unfold work? at moved
  cases thread : w.thread with
  | idle =>
    simp only [thread] at moved
    split at moved
    · rename_i queue
      cases moved
      exact .take thread queue
    · rename_i queue
      split at moved <;> cases moved
      exact .leave thread queue ‹_›
  | holding job =>
    simp only [thread] at moved
    split at moved <;> rename_i stopping <;> cases moved
    · exact .discard thread stopping
    · exact .begin thread (Bool.eq_false_iff.mpr stopping)
  | between job rest p =>
    simp only [thread] at moved
    cases rest with
    | nil =>
      cases moved
      exact .complete thread
    | cons phase rest =>
      dsimp only at moved
      split at moved <;> rename_i fires <;> cases moved
      · exact .halt thread (List.contains_iff_mem.mp fires)
      · exact .enter thread fun member => fires (List.contains_iff_mem.mpr member)
  | inPhase job phase rest p =>
    simp only [thread] at moved
    split at moved
    · rename_i may
      cases moved
      have quiet : job.id ∈ w.fired ∨ seen = .never := by simpa [mayHaveSeen] using may
      cases ran : runPhase job.settings p phase seen with
      | ok given => exact .report thread quiet ran
      | error e =>
        rw [endPhase]
        split
        · exact .breakOff thread quiet ran ‹_›
        · exact .fail thread quiet ran ‹_›
    · cases moved
  | ended job result =>
    simp only [thread] at moved
    split at moved <;> cases moved
    exact .retire thread (Option.not_isSome_iff_eq_none.mp ‹_›)
  | retired job result =>
    simp only [thread] at moved
    cases moved
    exact .announce thread
  | exited | broken => simp [thread] at moved

section Frame

variable {w w' : Worker} {m : Move}

theorem Move.work_or_host (m : Move) : (∃ seen, m = .work seen) ∨ ∀ seen, m ≠ .work seen := by
  cases m with
  | work seen => exact .inl ⟨seen, rfl⟩
  | send | register | cancel | receive | stop | close => exact .inr fun _ => nofun

theorem Worker.cancel_eq (w : Worker) :
    w.cancel = { w with fired := w.registered.head?.toList ++ w.fired } := by
  obtain ⟨_, _, registered⟩ := w
  cases registered <;> rfl

inductive Worker.Hosts (w : Worker) : Move → Worker → Prop
  | send {settings : Settings} (opened : w.closed = false) (unlocked : w.registering = none)
      (live : w.isLive = true) :
      w.Hosts (.send settings) { w with
        queue := w.queue ++ [⟨w.nextId, settings⟩], registering := some w.nextId
        nextId := w.nextId + 1 }
  | register {id : Nat} (locked : w.registering = some id) :
      w.Hosts .register { w with registered := w.registered ++ [id], registering := none }
  | cancel (unlocked : w.registering = none) :
      w.Hosts .cancel { w with fired := w.registered.head?.toList ++ w.fired }
  | receive {o : Output} {rest : List Output} (outputs : w.outputs = o :: rest) :
      w.Hosts .receive { w with outputs := rest }
  | stop : w.Hosts .stop { w with stopping := true }
  | close (unlocked : w.registering = none) : w.Hosts .close { w with closed := true }

theorem Worker.hosts_of_move? (host : ∀ seen, m ≠ .work seen) (moved : w.move? m = some w') :
    w.Hosts m w' := by
  cases m with
  | send settings =>
    rw [move?, send?] at moved
    split at moved
    · cases moved
    · rename_i ready
      cases moved
      simp only [Bool.or_eq_true, Bool.not_eq_true', not_or, Bool.not_eq_true, Bool.not_eq_false,
        Option.isSome_eq_false_iff, Option.isNone_iff_eq_none] at ready
      obtain ⟨⟨opened, unlocked⟩, live⟩ := ready
      exact .send opened unlocked live
  | register =>
    obtain ⟨id, locked, rfl⟩ := Option.map_eq_some_iff.mp moved
    exact .register locked
  | cancel =>
    rw [move?, cancel_eq] at moved
    split at moved <;> cases moved
    exact .cancel (Option.not_isSome_iff_eq_none.mp ‹_›)
  | receive =>
    rw [move?] at moved
    split at moved <;> cases moved
    exact .receive ‹_›
  | stop =>
    cases moved
    exact .stop
  | close =>
    rw [move?] at moved
    split at moved <;> cases moved
    exact .close (Option.not_isSome_iff_eq_none.mp ‹_›)
  | work seen => exact absurd rfl (host seen)

theorem Worker.host_frame (host : ∀ seen, m ≠ .work seen) (moved : w.move? m = some w') :
    w'.thread = w.thread ∧ (w.stopping = true → w'.stopping = true) := by
  cases hosts_of_move? host moved with
  | stop => exact ⟨rfl, fun _ => rfl⟩
  | send | register | cancel | receive | close => exact ⟨rfl, id⟩

theorem Worker.stopping_of_move? (moved : w.move? m = some w') (stopping : w.stopping = true) :
    w'.stopping = true := by
  rcases m.work_or_host with ⟨seen, rfl⟩ | host
  · cases works_of_work? moved <;> exact stopping
  · exact (host_frame host moved).2 stopping

theorem Worker.kept_of_move? (moved : w.move? m = some w') (kept : w'.stopping = false) :
    w.stopping = false := by
  apply Bool.eq_false_iff.mpr
  intro stopping
  have stopped := stopping_of_move? moved stopping
  rw [kept] at stopped
  cases stopped

theorem Worker.broken_of_move? {f : Fault} (moved : w.move? m = some w')
    (broken : w.thread = .broken f) : w'.thread = .broken f := by
  rcases m.work_or_host with ⟨seen, rfl⟩ | host
  · cases works_of_work? moved <;> simp_all
  · exact (host_frame host moved).1.trans broken

theorem Worker.exited_of_move? (moved : w.move? m = some w') (exited : w.thread = .exited) :
    w'.thread = .exited := by
  rcases m.work_or_host with ⟨seen, rfl⟩ | host
  · cases works_of_work? moved <;> simp_all
  · exact (host_frame host moved).1.trans exited

end Frame

theorem Worker.stuck_cases {w : Worker} (unlocked : w.registering = none)
    (stuck : ∀ seen, w.work? seen = none) :
    (w.thread = .idle ∧ w.queue = []) ∨ w.thread = .exited ∨ ∃ f, w.thread = .broken f := by
  have stuck := stuck .never
  unfold work? at stuck
  cases thread : w.thread with
  | idle =>
    simp only [thread] at stuck
    split at stuck
    · cases stuck
    · exact .inl ⟨rfl, ‹_›⟩
  | holding job =>
    simp only [thread] at stuck
    split at stuck <;> cases stuck
  | between job rest p =>
    simp only [thread] at stuck
    cases rest with
    | nil => cases stuck
    | cons phase rest =>
      dsimp only at stuck
      split at stuck <;> cases stuck
  | inPhase job phase rest p => simp [thread, mayHaveSeen] at stuck
  | ended job result => simp [thread, unlocked] at stuck
  | retired job result => simp [thread] at stuck
  | exited => exact .inr (.inl rfl)
  | broken f => exact .inr (.inr ⟨f, rfl⟩)

theorem Worker.work?_of_ran {w : Worker} {job : Job} {phase : Phase} {rest : List Phase}
    {p : Progress} {r : PhaseReport} (thread : w.thread = .inPhase job phase rest p)
    (ran : runPhase job.settings p phase .never = .ok (r, .never)) :
    w.work? .never = some { w with
      outputs := w.outputs ++ [.phase job.id r], thread := .between job rest (p.add r) } := by
  have seen : w.mayHaveSeen job.id .never = true := Bool.or_true _
  simp only [work?, thread, seen, if_true, endPhase, ran]

def Move.sent (w : Worker) : Move → List Job
  | .send settings => [⟨w.nextId, settings⟩]
  | _ => []

def Move.taken (w : Worker) : Move → List Output
  | .receive => w.outputs.take 1
  | _ => []

/-- Steps of host and thread from the start of a worker, in any order: the jobs that were sent, the
outputs that were received and the worker they lead to. -/
inductive History : List Job → List Output → Worker → Prop
  | start : History [] [] {}
  | move {jobs : List Job} {received : List Output} {w w' : Worker} (m : Move)
      (past : History jobs received w) (moved : w.move? m = some w') :
      History (jobs ++ m.sent w) (received ++ m.taken w) w'

end SatLab.Campaign
