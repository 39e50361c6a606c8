import Foreman.Proofs.Engine.Fidelity
import Foreman.Proofs.Engine.Threads
import Foreman.Proofs.Registry

namespace Foreman.Engine

open Account

variable {b : Blueprint} {around : Surroundings} {t : Timeline} {l : Loans}
  {earlier meanwhile : List Move} {slots ticket : Nat} {task : Task} {job record : Job}
  {s s' : State} {ending : Ending}

-- The end of an attempt, as it shows outside of its job's record: the books have one more entry,
-- the attempt is gone and its slot given back, and no other record is touched. `job` is the
-- record before.
structure Closes (s s' : State) (ticket : Nat) (job : Job) (outcome : Outcome) : Prop where
  reported : s'.audit.reported =
    s.audit.reported ++ [⟨job.id, job.retries + 1, outcome, Span.zero, s.now⟩]
  tally : s'.tally = s.tally.finish outcome
  gone : s'.task? ticket = none
  freed : job.id ∉ s'.gate.holders
  others : ∀ other, other ≠ job.id → s'.ledger.get? other = s.ledger.get? other

-- The job is over without success, for a reason.
structure Fails (s s' : State) (ticket : Nat) (job : Job) (reason : String) : Prop
    extends Closes s s' ticket job .failed where
  record : s'.ledger.get? job.id = some (job.failedWith reason s.now)
  queue : s'.queue = s.queue

structure LeavesJob (s s' : State) (ticket : Nat) (requeues : Bool) (job : Job)
    (ending : Ending) : Prop where
  completed : ∀ artifact, ending = .success artifact →
    s'.ledger.get? job.id = some (job.completedWith artifact s.now) ∧
      s'.queue = s.queue ∧
      (∃ path ∈ s'.registry.paths job.id,
        s'.registry.isSame (Path.ofText artifact.path) path = true) ∧
      Closes s s' ticket job .completed
  retried : ∀ reason, ending = .failure (.retriable reason) → requeues = true →
    job.retries < job.maxRetries → s.queue.length < s.queue.capacity →
      s'.ledger.get? job.id = some (job.retriedAfter reason) ∧
        job.id ∉ s.queue.order ∧
        (∃ priority ahead entry behind, job.priority = some priority ∧
          s.queue.entries = ahead ++ behind ∧ s'.queue.entries = ahead ++ entry :: behind ∧
          entry.job = job.id ∧ entry.priority = priority ∧
          (∀ other ∈ ahead, other.priority ≤ priority) ∧
          (∀ other ∈ behind, priority < other.priority)) ∧
        Closes s s' ticket job .retried
  crowdedOut : ∀ reason, ending = .failure (.retriable reason) → requeues = true →
    job.retries < job.maxRetries → s.queue.capacity ≤ s.queue.length →
      s'.ledger.get? job.id = some ((job.retriedAfter reason).failedWith
          (reason ++ "; retry could not be scheduled: " ++
            (Fault.queueFull s.queue.capacity).message) s.now) ∧
        s'.queue = s.queue ∧
        Closes s s' ticket job .failed
  exhausted : ∀ reason, ending = .failure (.retriable reason) → requeues = true →
    job.maxRetries ≤ job.retries →
      Fails s s' ticket job ("retries exhausted after " ++ Text.ofNat (job.retries + 1) ++
        " attempts: " ++ reason)
  direct : ∀ reason, ending = .failure (.retriable reason) → requeues = false →
    Fails s s' ticket job ("retriable error on direct run: " ++ reason)
  nonRetriable : ∀ reason, ending = .failure (.nonRetriable reason) →
    Fails s s' ticket job reason
  unexpected : ∀ chain, ending = .failure (.unexpected chain) →
    Fails s s' ticket job ("unexpected error: " ++ Failure.joined chain)
  panicked : ∀ message, ending = .panic message →
    Fails s s' ticket job ("unexpected error: " ++ panicText message)

theorem LeavesJob.status_of_success {requeues : Bool} {artifact : Artifact}
    (h : LeavesJob s s' ticket requeues job (.success artifact)) :
    (s'.ledger.get? job.id).map Job.status = some .completed := by
  obtain ⟨hrecord, -⟩ := h.completed artifact rfl
  rw [hrecord]
  rfl

theorem joined_singleton (cause : String) : Failure.joined [cause] = cause := rfl

-- What the ledger and the queue say is what was concluded from the result.
theorem leavesJob_of_concludes {next : Job} {queue : Queue} {outcome : Outcome}
    {requeues : Bool} (hconcludes : s.Concludes requeues job ending.result next queue outcome)
    (hrecord : s'.ledger.get? job.id = some next) (hqueue : s'.queue = queue)
    (hregistry : s'.registry = s.claimsAfter job.id ending.result)
    (hcloses : Closes s s' ticket job outcome) (hordered : s.queue.Ordered s.now)
    (hout : job.id ∉ s.queue.order)
    (hpriority : requeues = true → job.priority.isSome = true) :
    LeavesJob s s' ticket requeues job ending := by
  refine ⟨?_, ?_, ?_, ?_, ?_, ?_, ?_, ?_⟩
  · rintro artifact rfl
    cases hconcludes
    refine ⟨hrecord, hqueue, ?_, hcloses⟩
    rw [hregistry]
    exact Registry.exists_mem_paths_claim _ _ _
  · rintro reason rfl hrequeues hbudget hroom
    cases hconcludes with
    | retried _ _ _ =>
      obtain ⟨priority, hpriority⟩ := Option.isSome_iff_exists.mp (hpriority hrequeues)
      obtain ⟨ahead, behind, hentries, hjoined, hahead, hbehind⟩ :=
        hordered.joined_split job.id priority
      rw [hpriority, Option.getD_some] at hqueue
      rw [← hqueue] at hjoined
      exact ⟨hrecord, hout, ⟨priority, ahead, _, behind, hpriority, hentries, hjoined, rfl, rfl,
        hahead, hbehind⟩, hcloses⟩
    | crowdedOut _ _ hfull => omega
    | exhausted _ hspent => omega
    | direct hdirect => simp [hrequeues] at hdirect
  · rintro reason rfl hrequeues hbudget hfull
    cases hconcludes with
    | retried _ _ hroom => omega
    | crowdedOut _ _ _ => exact ⟨hrecord, hqueue, hcloses⟩
    | exhausted _ hspent => omega
    | direct hdirect => simp [hrequeues] at hdirect
  · rintro reason rfl hrequeues hspent
    cases hconcludes with
    | retried _ hbudget _ => omega
    | crowdedOut _ hbudget _ => omega
    | exhausted _ _ => exact ⟨hcloses, hrecord, hqueue⟩
    | direct hdirect => simp [hrequeues] at hdirect
  · rintro reason rfl hdirect
    cases hconcludes with
    | retried hrequeues _ _ => simp [hdirect] at hrequeues
    | crowdedOut hrequeues _ _ => simp [hdirect] at hrequeues
    | exhausted hrequeues _ => simp [hdirect] at hrequeues
    | direct _ => exact ⟨hcloses, hrecord, hqueue⟩
  · rintro reason rfl
    cases hconcludes
    exact ⟨hcloses, hrecord, hqueue⟩
  · rintro chain rfl
    cases hconcludes
    exact ⟨hcloses, hrecord, hqueue⟩
  · rintro message rfl
    cases hconcludes
    rw [← joined_singleton (panicText message)]
    exact ⟨hcloses, hrecord, hqueue⟩

theorem closes_closed {line : Line} {ledger : Ledger} {queue : Queue} {registry : Registry}
    {outcome : Outcome} (hid : job.id = task.job) (hfreed : task.job ∉ line.gate.holders)
    (htouches : s.ledger.Touches task.job ledger) :
    Closes s (s.closed task line ledger queue registry (job.retries + 1) outcome) task.ticket job
      outcome where
  reported := by
    rw [hid]
    rfl
  tally := rfl
  gone := by
    simp only [State.task?, State.closed, State.dropTask, List.find?_eq_none]
    intro other hother
    simpa using (List.mem_filter.mp hother).2
  freed := hid ▸ hfreed
  others := hid ▸ htouches.others

theorem leavesJob_endTask {before : Job} (h : l.Regular slots) (htask : task ∈ l.state.tasks)
    (hstage : task.stage = .running before) (ending : Ending) :
    ∃ job, l.state.ledger.get? task.job = some job ∧
      job = { before with progress := job.progress } ∧
      LeavesJob l.state (l.state.apply (.endTask task.ticket ending.result)) task.ticket
        task.requeues job ending := by
  obtain ⟨s, lent⟩ := l
  obtain ⟨job, hjob, hstatus⟩ := h.faithful.running task htask before hstage
  have hsame := h.balanced.eq_before htask hstage hjob hstatus
  have hout := h.balanced.apart task htask
  have hnamed := h.balanced.named task htask before hstage
  have hid : job.id = task.job := (Ledger.get?_mem hjob).2
  obtain ⟨line, hline, hgate⟩ := exists_release h.balanced htask
  have hfreed : task.job ∉ line.gate.holders := fun hheld =>
    ((Gate.mem_holders_release h.balanced.gate hgate).mp hheld).1 rfl
  have hpriority : task.requeues = true → job.priority.isSome = true := by
    intro hrequeues
    rw [hsame]
    exact h.faithful.priority task htask before hstage hrequeues
  refine ⟨job, hjob, hsame, ?_⟩
  have happly : s.apply (.endTask task.ticket ending.result) =
      s.endTask task before ending.result := by
    have hfind : s.task? task.ticket = some task := Keyed.find?_key h.balanced.tickets htask
    simp only [State.apply, State.withTask, hfind, hstage]
  obtain ⟨next, queue, outcome, ledger, hconcludes, hrewrites, heq⟩ :=
    State.endTask_concludes hline hnamed hjob hstatus hsame hout hfreed ending.result
  rw [happly, heq]
  exact leavesJob_of_concludes hconcludes (hid ▸ hrewrites.after) rfl (hid ▸ rfl)
    (closes_closed hid hfreed hrewrites.toTouches) h.balanced.queue (hid ▸ hout) hpriority

theorem mem_tasks_beginTask (htask : s.task? ticket = some task) (hstage : task.stage = .starting)
    (hrecord : s.ledger.get? task.job = some record)
    (hready : record.status.canBecome .processing = true) :
    { task with stage := .running (record.begun s.now) } ∈
      (s.apply (.beginTask ticket)).tasks := by
  obtain ⟨hmem, rfl⟩ := State.task?_mem htask
  simp only [State.apply, State.withTask, htask, hstage, State.beginTask]
  rcases s.ledger.startAttempt_cases task.job s.now with
    ⟨found, ledger, -, hok, hrewrites⟩ | ⟨fault, -, hall⟩
  · obtain rfl := hrewrites.eq_before hrecord
    simp only [hok]
    exact mem_staged.mpr (.inr ⟨task, hmem, rfl, rfl⟩)
  · rw [hall record hrecord] at hready
    cases hready

-- One attempt from beginning to end. Whatever happens while it goes on, the record of its job is
-- in the end the one with which the attempt began, progress apart, and the way in which the
-- operation ended decides what becomes of it.
theorem attempt_leaves_job (hbuild : b.build around = .ok t)
    (hlawful : (Loans.ofState t.state).Lawful (earlier ++ .beginTask ticket :: meanwhile))
    (htask : (t.state.run earlier).task? ticket = some task) (hstage : task.stage = .starting)
    (hrecord : (t.state.run earlier).ledger.get? task.job = some record)
    (hready : record.status.canBecome .processing = true)
    (hmeanwhile : ∀ move ∈ meanwhile, move.ends? ≠ some ticket) (ending : Ending) :
    ∃ progress,
      let s := t.state.run (earlier ++ .beginTask ticket :: meanwhile)
      let job := { record.begun (t.state.run earlier).now with progress := progress }
      s.ledger.get? task.job = some job ∧
        LeavesJob s (s.apply (.endTask ticket ending.result)) ticket task.requeues job
          ending := by
  obtain ⟨-, rfl⟩ := State.task?_mem htask
  have hregular := Blueprint.regular_of_build hbuild
  obtain ⟨hearlier, hbegin, hlater⟩ := Loans.follows_append.mp hlawful
  have hbefore := Loans.Lawful.regular hearlier hregular
  have hafter := hbefore.make hbegin.1 hbegin.2
  have hstate : ((Loans.ofState t.state).run earlier).state = t.state.run earlier :=
    Loans.run_state _ _
  have hmem := mem_tasks_beginTask htask hstage hrecord hready
  rw [← hstate] at hmem
  have hrunning := Loans.Lawful.mem_tasks hlater hafter hmem rfl hmeanwhile
  obtain ⟨job, hjob, hsame, hleaves⟩ :=
    leavesJob_endTask (Loans.Lawful.regular hlater hafter) hrunning rfl ending
  have hrun : ((((Loans.ofState t.state).run earlier).make (.beginTask task.ticket)).run
      meanwhile).state = t.state.run (earlier ++ .beginTask task.ticket :: meanwhile) := by
    have hwhole := Loans.run_state (Loans.ofState t.state)
      (earlier ++ .beginTask task.ticket :: meanwhile)
    rw [Loans.run_append] at hwhole
    exact hwhole
  rw [hrun] at hjob hleaves
  rw [hstate] at hsame
  refine ⟨job.progress, ?_⟩
  rw [← hsame]
  exact ⟨hjob, hleaves⟩

-- On one thread the whole end of an attempt is undisturbed, from its result to its report.
theorem attempt_on_one_thread (hbuild : b.build around = .ok t)
    (hlawful : (Loans.ofState t.state).Lawful (earlier ++ .beginTask ticket :: meanwhile))
    (htask : (Threads.onOneThread t.state earlier).state.task? ticket = some task)
    (hstage : task.stage = .starting)
    (hrecord : (Threads.onOneThread t.state earlier).state.ledger.get? task.job = some record)
    (hready : record.status.canBecome .processing = true)
    (hmeanwhile : ∀ move ∈ meanwhile, move.ends? ≠ some ticket) (ending : Ending) :
    ∃ progress,
      let begun := Threads.onOneThread t.state earlier
      let before := Threads.onOneThread t.state (earlier ++ .beginTask ticket :: meanwhile)
      let after := before.run (Move.steps (.endTask ticket ending.result))
      let job := { record.begun begun.state.now with progress := progress }
      before.state.ledger.get? task.job = some job ∧ after.IsSettled ∧
        LeavesJob before.state after.state ticket task.requeues job ending := by
  rw [Threads.onOneThread_eq] at htask hrecord
  obtain ⟨progress, hjob, hleaves⟩ :=
    attempt_leaves_job hbuild hlawful htask hstage hrecord hready hmeanwhile ending
  simp only [Threads.onOneThread_eq, Threads.run_steps]
  exact ⟨progress, hjob, ⟨rfl, rfl⟩, hleaves⟩

-- A job is in the queue of an engine with one slot, and the queue is looked at.
def firstAttempt : List Move := [.submit ⟨1⟩ [] 5 (some 1), .start, .poll]

-- While it is in progress, it tells how far it has come, time passes, another job comes, and
-- someone tries to withdraw it.
def busyTime : List Move :=
  [.report 0 40, .pass 50, .submit ⟨2⟩ [] 3 none, .withdrawJob ⟨1⟩, .maintain]

theorem attempt_on_one_thread_busyTime :
    ∃ t task record, (Blueprint.idle 1).build default = .ok t ∧
      (Loans.ofState t.state).Lawful (firstAttempt ++ .beginTask 0 :: busyTime) ∧
      (Threads.onOneThread t.state firstAttempt).state.task? 0 = some task ∧
      task.stage = .starting ∧
      (Threads.onOneThread t.state firstAttempt).state.ledger.get? task.job = some record ∧
      record.status.canBecome .processing = true ∧
      (∀ move ∈ busyTime, move.ends? ≠ some 0) ∧
      ∃ progress,
        let begun := Threads.onOneThread t.state firstAttempt
        let before := Threads.onOneThread t.state (firstAttempt ++ .beginTask 0 :: busyTime)
        let after := before.run (Move.steps (.endTask 0 (.error (.retriable "busy"))))
        let job := { record.begun begun.state.now with progress := progress }
        LeavesJob before.state after.state 0 task.requeues job (.failure (.retriable "busy")) := by
  have hbuild : (Blueprint.idle 1).build default = .ok (Timeline.ofState
      ((Blueprint.idle 1).initial default) fun _ _ => ⟨[], 0, [], .success ⟨"out", 0, 0.0⟩⟩) := rfl
  have hlawful : (Loans.ofState ((Blueprint.idle 1).initial default)).Lawful
      (firstAttempt ++ .beginTask 0 :: busyTime) := by decide
  have hmeanwhile : ∀ move ∈ busyTime, move.ends? ≠ some 0 := by decide
  have htask : (Threads.onOneThread ((Blueprint.idle 1).initial default)
      firstAttempt).state.task? 0 = some ⟨0, ⟨1⟩, true, .starting⟩ := rfl
  obtain ⟨progress, -, -, hleaves⟩ := attempt_on_one_thread hbuild hlawful htask rfl rfl rfl
    hmeanwhile (.failure (.retriable "busy"))
  exact ⟨_, _, _, hbuild, hlawful, rfl, rfl, rfl, rfl, hmeanwhile, progress, hleaves⟩

-- The job of the first attempt has a slot again by the time it is to be queued again, and so it
-- fails. The direct run succeeds, and the job has failed for all that.
def usurpedRun : List Step := Threads.usurpation ++ [.goOn 0, .goOn 0, .goOn 0]

theorem usurpedRun_fails :
    ∃ t, (Blueprint.idle 1).build default = .ok t ∧
      let before := (Threads.ofState t.state).run usurpedRun
      let after := before.run (Move.steps (.endTask 2 (.ok ⟨"out", 0, 0.0⟩)))
      before.IsSettled ∧ before.state.tasks.map Task.job = [⟨1⟩] ∧ after.IsSettled ∧
      (after.state.ledger.get? ⟨1⟩).map Job.status = some .failed ∧
      after.state.audit.reported.map AttemptRecord.outcome = [.failed, .failed] ∧
      ∀ job, job.id = ⟨1⟩ →
        ¬ LeavesJob before.state after.state 2 false job (.success ⟨"out", 0, 0.0⟩) := by
  refine ⟨_, rfl, ?_, ?_, ?_, ?_, ?_, ?_⟩
  · decide
  · decide
  · decide
  · decide
  · decide
  · exact fun job hid hleaves => absurd (hid ▸ hleaves.status_of_success) (by decide)

end Foreman.Engine
