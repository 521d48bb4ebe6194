import SatLab.Campaign.Run
/-!
A worker that runs campaigns in the background. The host sends jobs and receives outputs;
a thread of the worker takes the jobs one after the other. Both sides move in small steps,
and the steps of the two may come in any order: `Worker.move?` is one step of either side.
The functions for hosts below it let the thread move only while the host waits.
-/

set_option autoImplicit false
set_option relaxedAutoImplicit false

namespace SatLab.Campaign

/-- A campaign to run. Jobs are numbered from 0 in the order of their submission. -/
structure Job where
  id : Nat
  settings : Settings

/-- What the worker sends to the host. -/
inductive Output
  | phase (job : Nat) (r : PhaseReport)
  | finished (job : Nat) (result : Except Error CampaignReport)

/-- What the worker says it is doing. -/
inductive Status
  | idle
  | running (job : Nat) (p : Phase)
  | stopped
  deriving DecidableEq, Repr

/-- Where the thread is: in front of the queue, with a job in hand that it has not started, in front
of the phases that are left, in the middle of one, behind the last one, with the end of a job to
announce, over and done, or broken off in the middle of a phase. -/
inductive Thread
  | idle
  | holding (job : Job)
  | between (job : Job) (rest : List Phase) (p : Progress)
  | inPhase (job : Job) (phase : Phase) (rest : List Phase) (p : Progress)
  | ended (job : Job) (result : Except Error CampaignReport)
  -- the job has been taken off the list of registered jobs, but its end is not announced
  | retired (job : Job) (result : Except Error CampaignReport)
  | exited
  | broken (f : Fault)

/-- A worker as its host and its thread see it. The jobs that have been sent and are not over are
registered in order, those whose stop signal has fired are kept apart, and the outputs are those
that have been sent and not received. -/
structure Worker where
  queue : List Job := []
  closed : Bool := false
  registered : List Nat := []
  -- the job that the host has sent and is about to register. Until then the list of registered
  -- jobs is locked.
  registering : Option Nat := none
  fired : List Nat := []
  stopping : Bool := false
  outputs : List Output := []
  status : Status := .idle
  thread : Thread := .idle
  nextId : Nat := 0

/-- One step of the host or of the thread. -/
inductive Move
  | send (settings : Settings)
  | register
  | cancel
  | receive
  | stop
  | close
  -- the thread moves. At the end of a phase the stop signal is what the phase has seen.
  | work (seen : Signal)

namespace Worker

/-- Whether the thread can still take jobs. -/
def isLive (w : Worker) : Bool :=
  match w.thread with
  | .exited | .broken _ => false
  | _ => true

def send? (w : Worker) (settings : Settings) : Option Worker :=
  if w.closed || w.registering.isSome || !w.isLive then none
  else some { w with
    queue := w.queue ++ [⟨w.nextId, settings⟩], registering := some w.nextId
    nextId := w.nextId + 1 }

def register? (w : Worker) : Option Worker :=
  w.registering.map fun id => { w with registered := w.registered ++ [id], registering := none }

def cancel (w : Worker) : Worker :=
  match w.registered with
  | id :: _ => { w with fired := id :: w.fired }
  | [] => w

def stop (w : Worker) : Worker := { w with stopping := true }

def close (w : Worker) : Worker := { w with closed := true }

def exit (w : Worker) : Worker := { w with status := .stopped, thread := .exited }

/-- Whether a phase of a job may have seen the given stop signal: one that has not fired by
the end of the phase was quiet throughout. -/
def mayHaveSeen (w : Worker) (job : Nat) (seen : Signal) : Bool :=
  w.fired.contains job || seen == .never

def endPhase (w : Worker) (job : Job) (rest : List Phase) (p : Progress) :
    Except Error (PhaseReport × Signal) → Worker
  | .ok (r, _) =>
    { w with outputs := w.outputs ++ [.phase job.id r], thread := .between job rest (p.add r) }
  | .error e =>
    match e.fault? with
    | some f => { w with thread := .broken f }
    | none => { w with thread := .ended job (.error e.normalised) }

def work? (w : Worker) (seen : Signal) : Option Worker :=
  match w.thread with
  | .idle =>
    match w.queue with
    | job :: rest => some { w with queue := rest, thread := .holding job }
    | [] => if w.closed then some w.exit else none
  | .holding job =>
    if w.stopping then some w.exit
    else some { w with thread := .between job job.settings.selected job.settings.initial }
  | .between job [] p => some { w with thread := .ended job (.ok p.report) }
  | .between job (phase :: rest) p =>
    if w.fired.contains job.id then some { w with thread := .ended job (.error .cancelled) }
    else some { w with
      status := .running job.id phase, thread := .inPhase job phase rest p }
  | .inPhase job phase rest p =>
    if w.mayHaveSeen job.id seen then
      some (w.endPhase job rest p (runPhase job.settings p phase seen))
    else none
  | .ended job result =>
    if w.registering.isSome then none
    else some { w with
      registered := w.registered.filter (· != job.id), thread := .retired job result }
  | .retired job result =>
    some { w with
      status := .idle, outputs := w.outputs ++ [.finished job.id result], thread := .idle }
  | .exited | .broken _ => none

/-- One step of either side; none when the step is not possible. -/
def move? (w : Worker) : Move → Option Worker
  | .send settings => w.send? settings
  | .register => w.register?
  | .cancel => if w.registering.isSome then none else some w.cancel
  | .receive => match w.outputs with
    | [] => none
    | _ :: rest => some { w with outputs := rest }
  | .stop => some w.stop
  | .close => if w.registering.isSome then none else some w.close
  | .work seen => w.work? seen

def moves? (w : Worker) (moves : List Move) : Option Worker := moves.foldlM move? w

end Worker

def Job.steps (job : Job) : Nat := 2 * job.settings.selected.length + 6

/-- The steps that the thread takes, at most, before it is in front of the queue and then
over. -/
def Thread.steps : Thread → Nat
  | .idle => 1
  | .holding job => 2 * job.settings.selected.length + 5
  | .between _ rest _ => 2 * rest.length + 4
  | .inPhase _ _ rest _ => 2 * rest.length + 5
  | .ended _ _ => 3
  | .retired _ _ => 2
  | .exited | .broken _ => 0

namespace Worker

/-- The steps that the thread takes, at most, if nothing more is sent. -/
def steps (w : Worker) : Nat :=
  w.thread.steps + w.queue.foldr (fun job n => job.steps + n) 0

private theorem steps_endPhase_lt (w : Worker) (job : Job) (rest : List Phase) (p : Progress)
    (outcome : Except Error (PhaseReport × Signal)) : (w.endPhase job rest p outcome).steps <
      2 * rest.length + 5 + w.queue.foldr (fun job n => job.steps + n) 0 := by
  unfold endPhase
  split
  · simp [steps, Thread.steps]
  · split <;> simp [steps, Thread.steps]

theorem steps_work?_lt {w next : Worker} {seen : Signal} (h : w.work? seen = some next) :
    next.steps < w.steps := by
  obtain ⟨queue, _, _, _, _, _, _, _, thread, _⟩ := w
  cases thread with
  | idle =>
    cases queue with
    | nil =>
      simp only [work?] at h
      split at h <;> cases h
      simp [steps, exit, Thread.steps]
    | cons job rest => cases h; simp [steps, Thread.steps, Job.steps]; omega
  | holding job =>
    simp only [work?] at h
    split at h <;> cases h <;> simp [steps, exit, Thread.steps]
  | between job rest p =>
    cases rest with
    | nil => cases h; simp [steps, Thread.steps]
    | cons phase rest =>
      simp only [work?] at h
      split at h <;> cases h
      · simp [steps, Thread.steps]
      · simp [steps, Thread.steps]
        omega
  | inPhase job phase rest p =>
    simp only [work?] at h
    split at h <;> cases h
    exact steps_endPhase_lt _ job rest p _
  | ended job result =>
    simp only [work?] at h
    split at h <;> cases h
    simp [steps, Thread.steps]
  | retired job result => cases h; simp [steps, Thread.steps]
  | exited => cases h
  | broken f => cases h

def ownSignal (w : Worker) : Signal :=
  match w.thread with
  | .inPhase job .. => if w.fired.contains job.id then .fired else .never
  | _ => .never

/-- Lets the thread move until there is an output or it can move no more. -/
def advance (w : Worker) : Worker :=
  match w.outputs with
  | _ :: _ => w
  | [] =>
    match _h : w.work? w.ownSignal with
    | some next => next.advance
    | none => w
termination_by w.steps
decreasing_by exact steps_work?_lt _h

/-- Lets the thread move until it can move no more. -/
def settle (w : Worker) : Worker :=
  match _h : w.work? w.ownSignal with
  | some next => next.settle
  | none => w
termination_by w.steps
decreasing_by exact steps_work?_lt _h

def submit (w : Worker) (settings : Settings) : Except Error (Nat × Worker) :=
  match w.send? settings >>= register? with
  | some next => .ok (w.nextId, next)
  | none => .error .workerStopped

def poll (w : Worker) : Option (Output × Worker) :=
  match w.outputs with
  | [] => none
  | o :: rest => some (o, { w with outputs := rest })

def receive (w : Worker) : Option (Output × Worker) := w.advance.poll

/-- What waiting for a job comes to. -/
inductive Awaited
  | over (result : Except Error CampaignReport) (w : Worker)
  | stopped (w : Worker)
  -- the thread has nothing more to do, and the wait never ends
  | endless

/-- Waits for the end of a job among the next `budget` outputs, and drops all others. -/
def awaitWithin (job : Nat) : (budget : Nat) → Worker → Awaited
  | 0, w => if w.isLive then .endless else .stopped w
  | budget + 1, w =>
    match w.receive with
    | some (.finished id result, next) =>
      if id = job then .over result next else awaitWithin job budget next
    | some (.phase .., next) => awaitWithin job budget next
    | none => if w.advance.isLive then .endless else .stopped w.advance

/-- Waits for the end of a job, and drops all outputs in front of it. Every output to come
takes a step of the thread, so that their number is bounded. -/
def await (w : Worker) (job : Nat) : Awaited :=
  awaitWithin job (w.outputs.length + w.steps + 1) w

def shutdown (w : Worker) : Worker := w.close.settle

/-- Stops the first registered job and lets the thread start no further one. -/
def abandon (w : Worker) : Worker := w.stop.cancel.close.settle

end Worker

end SatLab.Campaign
