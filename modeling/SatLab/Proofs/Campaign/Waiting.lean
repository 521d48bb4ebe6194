import Mathlib.Data.List.Forall2
import SatLab.Proofs.Campaign.Moves
/-!
Waiting for jobs. All outputs come through one stream, and a host that waits for the end of a job
drops everything in front of it, the ends of other jobs as well. The ends come in the order of the
jobs, so that waits return in this order and in no other.
-/

set_option autoImplicit false
set_option relaxedAutoImplicit false

namespace SatLab.Campaign

namespace Output

def ends : Output → Option Nat
  | phase _ _ => none
  | finished id _ => some id

/-- What a wait for a job finds in a stream of outputs: the result of the job and what is left. -/
def wait (job : Nat) : List Output → Option (Except Error CampaignReport × List Output)
  | [] => none
  | finished id result :: rest => if id = job then some (result, rest) else wait job rest
  | phase _ _ :: rest => wait job rest

/-- The results that waits for jobs, one after the other, find in a stream of outputs. -/
def waits : List Nat → List Output → Option (List (Except Error CampaignReport))
  | [], _ => some []
  | job :: jobs, stream =>
    match wait job stream with
    | some (result, rest) => (waits jobs rest).map (result :: ·)
    | none => none

section Stream

variable {job : Nat} {jobs : List Nat} {stream rest : List Output}
  {result : Except Error CampaignReport} {results : List (Except Error CampaignReport)}

private theorem mem_ends :
    job ∈ stream.filterMap ends ↔ ∃ result, finished job result ∈ stream := by
  rw [List.mem_filterMap]
  constructor
  · rintro ⟨o, member, same⟩
    cases o with
    | phase => cases same
    | finished id result =>
      obtain rfl := Option.some.inj same
      exact ⟨result, member⟩
  · rintro ⟨result, member⟩
    exact ⟨_, member, rfl⟩

private theorem wait_eq_some_iff : wait job stream = some (result, rest) ↔ ∃ dropped,
    stream = dropped ++ finished job result :: rest ∧ job ∉ dropped.filterMap ends := by
  constructor
  · intro found
    induction stream with
    | nil => cases found
    | cons o stream ih =>
      cases o with
      | phase id r =>
        obtain ⟨dropped, rfl, absent⟩ := ih found
        exact ⟨phase id r :: dropped, rfl, absent⟩
      | finished id other =>
        rw [wait] at found
        split at found
        · rename_i same
          subst same
          obtain ⟨rfl, rfl⟩ := Prod.mk.inj (Option.some.inj found)
          exact ⟨[], rfl, List.not_mem_nil⟩
        · rename_i differs
          obtain ⟨dropped, rfl, absent⟩ := ih found
          refine ⟨finished id other :: dropped, rfl, ?_⟩
          intro member
          rcases List.mem_cons.mp member with same | member
          · exact differs same.symm
          · exact absent member
  · rintro ⟨dropped, rfl, absent⟩
    induction dropped with
    | nil => exact if_pos rfl
    | cons o dropped ih =>
      cases o with
      | phase id r => exact ih absent
      | finished id other =>
        have apart : ¬ (job = id ∨ job ∈ dropped.filterMap ends) := by
          rwa [← List.mem_cons]
        obtain ⟨differs, absent⟩ := not_or.mp apart
        have later := ih absent
        rw [List.cons_append, wait, if_neg fun same => differs same.symm]
        exact later

private theorem waits_cons_eq_some_iff : waits (job :: jobs) stream = some results ↔
    ∃ result rest others, wait job stream = some (result, rest) ∧
      waits jobs rest = some others ∧ results = result :: others := by
  rw [waits]
  cases found : wait job stream with
  | none => simp
  | some first =>
    obtain ⟨result, rest⟩ := first
    dsimp only
    rw [Option.map_eq_some_iff]
    constructor
    · rintro ⟨others, waited, rfl⟩
      exact ⟨result, rest, others, rfl, waited, rfl⟩
    · rintro ⟨result', rest', others, same, waited, rfl⟩
      obtain ⟨rfl, rfl⟩ := Prod.mk.inj (Option.some.inj same)
      exact ⟨others, waited, rfl⟩

/-- In a stream with the ends of jobs in order, waits all return when they are in order and the end
of each job is there, and then with the results of their own jobs. -/
private theorem waits_eq_some_iff (ascending : (stream.filterMap ends).Pairwise (· < ·)) :
    waits jobs stream = some results ↔ jobs.Pairwise (· < ·) ∧
      List.Forall₂ (fun job result => finished job result ∈ stream) jobs results := by
  induction jobs generalizing stream results with
  | nil =>
    rw [waits, Option.some.injEq, List.forall₂_nil_left_iff]
    exact ⟨fun none => ⟨List.Pairwise.nil, none.symm⟩, fun none => none.2.symm⟩
  | cons job jobs ih =>
    rw [waits_cons_eq_some_iff]
    constructor
    · rintro ⟨result, rest, others, found, waited, rfl⟩
      obtain ⟨dropped, rfl, -⟩ := wait_eq_some_iff.mp found
      rw [List.filterMap_append] at ascending
      have after : (job :: rest.filterMap ends).Pairwise (· < ·) :=
        (List.pairwise_append.mp ascending).2.1
      obtain ⟨later, ascending'⟩ := List.pairwise_cons.mp after
      obtain ⟨ordered, own⟩ := (ih ascending').mp waited
      have placed : List.Forall₂ (fun job' result' => job < job' ∧
          finished job' result' ∈ dropped ++ finished job result :: rest) jobs others := by
        apply own.imp
        intro job' result' member
        have next := later job' (mem_ends.mpr ⟨result', member⟩)
        exact ⟨next, List.mem_append_right _ (List.mem_cons_of_mem _ member)⟩
      obtain ⟨behind, there⟩ := (List.forall₂_and_left _ _).mp placed
      have here : finished job result ∈ dropped ++ finished job result :: rest :=
        List.mem_append_right _ List.mem_cons_self
      exact ⟨List.pairwise_cons.mpr ⟨behind, ordered⟩, .cons here there⟩
    · rintro ⟨ordered, own⟩
      obtain ⟨behind, ordered⟩ := List.pairwise_cons.mp ordered
      cases own with
      | @cons _ result _ others here there =>
        obtain ⟨dropped, rest, rfl⟩ := List.append_of_mem here
        rw [List.filterMap_append] at ascending
        obtain ⟨-, after, across⟩ := List.pairwise_append.mp ascending
        have first : ∀ id ∈ dropped.filterMap ends, id < job := fun id member =>
          across id member job List.mem_cons_self
        have absent : job ∉ dropped.filterMap ends := fun member =>
          lt_irrefl _ (first job member)
        have left : List.Forall₂ (fun job' result' => finished job' result' ∈ rest)
            jobs others := by
          apply ((List.forall₂_and_left _ _).mpr ⟨behind, there⟩).imp
          rintro job' result' ⟨higher, member⟩
          rcases List.mem_append.mp member with early | late
          · have lower := first job' (mem_ends.mpr ⟨result', early⟩)
            omega
          · rcases List.mem_cons.mp late with same | later
            · obtain ⟨rfl, -⟩ := Output.finished.inj same
              omega
            · exact later
        have found : wait job (dropped ++ finished job result :: rest) = some (result, rest) :=
          wait_eq_some_iff.mpr ⟨dropped, rfl, absent⟩
        have waited := (ih (List.pairwise_cons.mp after).2).mpr ⟨ordered, left⟩
        exact ⟨result, rest, others, found, waited, rfl⟩

end Stream

end Output

namespace Worker

/-- The thread alone leads from one worker to another, in which it can move no more. -/
def RunsTo (w v : Worker) : Prop :=
  (∃ signals : List Signal, w.moves? (signals.map Move.work) = some v) ∧
    ∀ seen, v.work? seen = none

def prepend (w : Worker) (earlier : List Output) : Worker :=
  { w with outputs := earlier ++ w.outputs }

section Settle

variable {w next : Worker} {seen : Signal}

private theorem settle_of_some (moves : w.work? w.ownSignal = some next) :
    w.settle = next.settle := by
  rw [settle]
  split
  · rename_i next' moves'
    rw [moves] at moves'
    obtain rfl := Option.some.inj moves'
    rfl
  · rename_i stuck
    rw [moves] at stuck
    cases stuck

private theorem settle_of_none (stuck : w.work? w.ownSignal = none) : w.settle = w := by
  rw [settle]
  split
  · rename_i moves
    rw [stuck] at moves
    cases moves
  · rfl

private theorem advance_of_some (empty : w.outputs = []) (moves : w.work? w.ownSignal = some next) :
    w.advance = next.advance := by
  rw [advance, empty]
  dsimp only
  split
  · rename_i next' moves'
    rw [moves] at moves'
    obtain rfl := Option.some.inj moves'
    rfl
  · rename_i stuck
    rw [moves] at stuck
    cases stuck

private theorem advance_of_none (stuck : w.work? w.ownSignal = none) : w.advance = w := by
  rw [advance]
  split
  · rfl
  · split
    · rename_i moves
      rw [stuck] at moves
      cases moves
    · rfl

private theorem advance_of_cons {o : Output} {rest : List Output} (ready : w.outputs = o :: rest) :
    w.advance = w := by
  rw [advance, ready]

private theorem endPhase_prepend (w : Worker) (earlier : List Output) (job : Job)
    (rest : List Phase) (p : Progress) (outcome : Except Error (PhaseReport × Signal)) :
    (w.prepend earlier).endPhase job rest p outcome =
      (w.endPhase job rest p outcome).prepend earlier := by
  cases outcome with
  | ok given =>
    simp only [endPhase, prepend]
    rw [List.append_assoc]
  | error e =>
    simp only [endPhase]
    cases e.fault? <;> rfl

private theorem work?_inPhase {job : Job} {phase : Phase} {rest : List Phase} {p : Progress}
    (thread : w.thread = .inPhase job phase rest p) :
    w.work? seen = if w.mayHaveSeen job.id seen then
      some (w.endPhase job rest p (runPhase job.settings p phase seen)) else none := by
  rw [work?, thread]

private theorem work?_prepend (w : Worker) (earlier : List Output) (seen : Signal) :
    (w.prepend earlier).work? seen = (w.work? seen).map (prepend · earlier) := by
  obtain ⟨queue, closed, _, registering, fired, stopping, _, _, thread, _⟩ := w
  cases thread with
  | idle => cases queue <;> cases closed <;> rfl
  | holding => cases stopping <;> rfl
  | between job rest p =>
    cases rest with
    | nil => rfl
    | cons phase rest =>
      dsimp only [work?, prepend]
      cases fired.contains job.id <;> rfl
  | inPhase job phase rest p =>
    rw [work?_inPhase rfl, work?_inPhase rfl, endPhase_prepend]
    symm
    exact apply_ite (Option.map (prepend · earlier)) _ _ _
  | ended => cases registering <;> rfl
  | retired => simp [work?, prepend]
  | exited | broken => rfl

theorem work?_eq_none (stuck : w.work? w.ownSignal = none) (seen : Signal) :
    w.work? seen = none := by
  cases thread : w.thread with
  | inPhase job phase rest p =>
    have may : w.mayHaveSeen job.id w.ownSignal = true := by
      rw [mayHaveSeen, ownSignal, thread]
      dsimp only
      cases w.fired.contains job.id <;> rfl
    rw [work?_inPhase thread, if_pos may] at stuck
    cases stuck
  | between job rest p =>
    rw [work?, thread] at stuck ⊢
    cases rest <;> exact stuck
  | exited | broken => rw [work?, thread]
  | _ => simpa only [work?, thread] using stuck

private theorem settle_prepend (w : Worker) (earlier : List Output) :
    (w.prepend earlier).settle = w.settle.prepend earlier := by
  induction w using settle.induct with
  | case1 w next moves ih =>
    have moves' : (w.prepend earlier).work? (w.prepend earlier).ownSignal =
        some (next.prepend earlier) := by
      rw [work?_prepend]
      exact congrArg (Option.map _) moves
    rw [settle_of_some moves, settle_of_some moves', ih]
  | case2 w stuck =>
    have stuck' : (w.prepend earlier).work? (w.prepend earlier).ownSignal = none := by
      rw [work?_prepend]
      exact congrArg (Option.map _) stuck
    rw [settle_of_none stuck, settle_of_none stuck']

theorem runsTo_settle (w : Worker) : w.RunsTo w.settle := by
  induction w using settle.induct with
  | case1 w next moves ih =>
    obtain ⟨⟨signals, moved⟩, stuck⟩ := ih
    rw [settle_of_some moves]
    exact ⟨⟨w.ownSignal :: signals, moves?_cons.mpr ⟨next, moves, moved⟩⟩, stuck⟩
  | case2 w stuck =>
    rw [settle_of_none stuck]
    exact ⟨⟨[], rfl⟩, work?_eq_none stuck⟩

private theorem length_settle_le (w : Worker) :
    w.settle.outputs.length ≤ w.outputs.length + w.steps := by
  induction w using settle.induct with
  | case1 w next moves ih =>
    have fewer := steps_work?_lt moves
    have more : next.outputs.length ≤ w.outputs.length + 1 := by
      cases works_of_work? moves <;> simp [exit]
    rw [settle_of_some moves]
    omega
  | case2 w stuck =>
    rw [settle_of_none stuck]
    omega

private theorem settle_advance (w : Worker) : w.advance.settle = w.settle := by
  induction w using advance.induct with
  | case1 w o rest ready => rw [advance_of_cons ready]
  | case2 w empty next moves ih => rw [advance_of_some empty moves, settle_of_some moves, ih]
  | case3 w empty stuck => rw [advance_of_none stuck]

private theorem settle_of_advance_nil (none : w.advance.outputs = []) : w.settle.outputs = [] := by
  induction w using advance.induct with
  | case1 w o rest ready =>
    rw [advance_of_cons ready, ready] at none
    cases none
  | case2 w empty next moves ih =>
    rw [advance_of_some empty moves] at none
    rw [settle_of_some moves]
    exact ih none
  | case3 w empty stuck =>
    rw [settle_of_none stuck]
    exact empty

private theorem settle_of_receive {o : Output} (received : w.receive = some (o, next)) :
    w.settle.outputs = o :: next.settle.outputs := by
  rw [receive, poll] at received
  split at received
  · cases received
  · rename_i first rest ready
    obtain ⟨rfl, rfl⟩ := Prod.mk.inj (Option.some.inj received)
    have again : w.advance = ({ w.advance with outputs := rest } : Worker).prepend [first] := by
      change w.advance = { w.advance with outputs := first :: rest }
      rw [← ready]
    rw [← settle_advance, again, settle_prepend]
    rfl

end Settle

/-- What a wait of the host comes to, as it finds it in the stream. -/
def Awaited.found : Awaited → Option (Except Error CampaignReport × List Output)
  | .over result w => some (result, w.settle.outputs)
  | .stopped _ | .endless => none

/-- The results of waits one after the other, if all of them return. -/
def awaits (w : Worker) : List Nat → Option (List (Except Error CampaignReport))
  | [] => some []
  | job :: jobs =>
    match w.await job with
    | .over result next => (next.awaits jobs).map (result :: ·)
    | .stopped _ | .endless => none

section Await

private theorem found_awaitWithin (job budget : Nat) (w : Worker)
    (enough : w.settle.outputs.length < budget) :
    (awaitWithin job budget w).found = Output.wait job w.settle.outputs := by
  induction budget generalizing w with
  | zero => omega
  | succ budget ih =>
    rw [awaitWithin]
    cases received : w.receive with
    | none =>
      have none : w.settle.outputs = [] := by
        apply settle_of_advance_nil
        rw [receive, poll] at received
        split at received
        · assumption
        · cases received
      rw [none]
      dsimp only
      split <;> rfl
    | some got =>
      obtain ⟨o, next⟩ := got
      have stream := settle_of_receive received
      have enough' : next.settle.outputs.length < budget := by
        rw [stream, List.length_cons] at enough
        omega
      rw [stream]
      cases o with
      | phase id r => exact ih next enough'
      | finished id result =>
        rw [Output.wait]
        dsimp only
        split
        · rfl
        · exact ih next enough'

private theorem found_await (w : Worker) (job : Nat) :
    (w.await job).found = Output.wait job w.settle.outputs := by
  apply found_awaitWithin
  have bound := w.length_settle_le
  omega

private theorem awaits_eq (w : Worker) (jobs : List Nat) :
    w.awaits jobs = Output.waits jobs w.settle.outputs := by
  induction jobs generalizing w with
  | nil => rfl
  | cons job jobs ih =>
    have found := w.found_await job
    rw [awaits, Output.waits, ← found]
    rcases w.await job with ⟨result, next⟩ | _ | _
    · exact congrArg (Option.map _) (ih next)
    · rfl
    · rfl

end Await

end Worker

section Order

variable {jobs : List Job} {received : List Output} {w v : Worker}

private theorem Job.filterMap_outputs (job : Job) (rs : List PhaseReport) :
    (job.outputs rs).filterMap Output.ends = [] := by
  apply List.filterMap_eq_nil_iff.mpr
  intro o member
  obtain ⟨r, -, rfl⟩ := List.mem_map.mp member
  rfl

private theorem Delivery.filterMap_outputs (d : Delivery) :
    d.outputs.filterMap Output.ends = [d.job.id] := by
  rw [outputs, List.filterMap_append, Job.filterMap_outputs]
  rfl

private theorem Accounts.ends_eq {ended : List Delivery} {rs : List PhaseReport}
    (accounts : Accounts jobs received w ended rs) :
    (received ++ w.outputs).filterMap Output.ends = ended.map (·.job.id) := by
  rw [accounts.carried, List.filterMap_append, List.filterMap_flatMap, List.filterMap_flatMap]
  simp [Delivery.filterMap_outputs, Job.filterMap_outputs, ← List.map_eq_flatMap]

private theorem Worker.Accounted.ends_ascending (accounted : w.Accounted jobs received) :
    (w.outputs.filterMap Output.ends).Pairwise (· < ·) := by
  obtain ⟨t, ended, rs, accounts, -⟩ := accounted
  have all := (List.pairwise_append.mp accounts.ids_ascending).1
  rw [← accounts.ends_eq, List.filterMap_append] at all
  exact (List.pairwise_append.mp all).2.1

theorem Worker.RunsTo.keeps (runs : w.RunsTo v) (past : History jobs received w) :
    History jobs received v ∧ v.registering = w.registering ∧ v.stopping = w.stopping := by
  obtain ⟨⟨signals, moved⟩, -⟩ := runs
  obtain ⟨-, registering, -, stopping, -⟩ := Worker.alone_of_moves? moved
  exact ⟨past.alone moved, registering, stopping⟩

private theorem Accounts.all_ended {ended : List Delivery} {rs : List PhaseReport}
    (accounts : Accounts jobs received w ended rs) (unlocked : w.registering = none)
    (stuck : ∀ seen, w.work? seen = none) (whole : ∀ f, w.thread ≠ .broken f) :
    jobs = ended.map Delivery.job := by
  rw [accounts.sent]
  rcases Worker.stuck_cases unlocked stuck with ⟨idle, empty⟩ | exited | ⟨f, broken⟩
  · rw [idle, empty]
    exact List.append_nil _
  · rw [exited, accounts.drained exited]
    exact List.append_nil _
  · exact absurd broken (whole f)

end Order

/-- A host that waits for jobs one after the other finds their ends in the stream of all outputs,
those at hand and those that the thread still sends. Whatever way the thread takes to its end, the
waits return exactly when they are in the order in which the jobs were sent and the end of each is
in the stream, and each then has the result of its own job; and unless a job breaks off, the end of
every job is in the stream that the host has not received. So all waits in order return, and in any
other order one of them does not: a wait for a later job drops the end of an earlier one. -/
theorem waits_return_in_order {jobs : List Job} {received : List Output} {w : Worker}
    (past : History jobs received w) (kept : w.stopping = false) (unlocked : w.registering = none) :
    w.RunsTo w.settle ∧ (∀ js, w.awaits js = Output.waits js w.settle.outputs) ∧
    ∀ v, w.RunsTo v →
      (∀ js results, Output.waits js v.outputs = some results ↔ js.Pairwise (· < ·) ∧
        List.Forall₂ (fun j result => .finished j result ∈ v.outputs) js results) ∧
      ((∀ f, v.thread ≠ .broken f) → ∀ job ∈ jobs, (∀ result, .finished job.id result ∉ received) →
        ∃ result, .finished job.id result ∈ v.outputs) := by
  refine ⟨w.runsTo_settle, w.awaits_eq, ?_⟩
  intro v runs
  obtain ⟨past', registering, stopping⟩ := runs.keeps past
  have accounted := past'.accounted (stopping.trans kept)
  refine ⟨fun js results => Output.waits_eq_some_iff accounted.ends_ascending, ?_⟩
  intro whole job sent unread
  obtain ⟨ended, rs, accounts⟩ := past'.accounts (stopping.trans kept) whole
  rw [accounts.all_ended (registering.trans unlocked) runs.2 whole] at sent
  obtain ⟨d, among, rfl⟩ := List.mem_map.mp sent
  have told := accounts.finished_iff.mpr ⟨d, among, rfl, rfl⟩
  rcases List.mem_append.mp told with read | left
  · exact absurd read (unread d.result)
  · exact ⟨d.result, left⟩

/-- A campaign without phases. -/
def noPhases : Settings := { phases := [] }

/-- Of two jobs without phases, waiting for the first and then for the second returns both results,
and waiting for the second and then for the first does not. -/
theorem later_wait_first_lost : ∃ w, ({} : Worker).moves?
      [.send noPhases, .register, .send noPhases, .register] = some w ∧ w.awaits [1, 0] = none ∧
    ∃ v, w.RunsTo v ∧ Output.waits [0, 1] v.outputs =
      some [.ok noPhases.initial.report, .ok noPhases.initial.report] := by
  have moved : ({} : Worker).moves? [.send noPhases, .register, .send noPhases, .register] =
    some _ := rfl
  obtain ⟨settles, awaits, waits⟩ :=
    waits_return_in_order (Worker.history_of_moves? moved) rfl rfl
  refine ⟨_, rfl, ?_, ?_⟩
  · rw [awaits, Option.eq_none_iff_forall_ne_some]
    intro results returned
    have ordered := ((waits _ settles).1 _ _).mp returned
    exact absurd ordered.1 (by decide)
  · refine ⟨_, ⟨⟨List.replicate 10 .never, rfl⟩, fun _ => rfl⟩, ?_⟩
    rfl

end SatLab.Campaign
