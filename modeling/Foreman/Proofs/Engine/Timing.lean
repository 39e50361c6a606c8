import Foreman.Proofs.Engine.Shape

namespace Foreman.Engine.State

variable {s : State} {poll : Option Nat} {upkeep : Option Upkeep}

-- The engine as it is, with other times for polling and upkeep.
def timed (s : State) (poll : Option Nat) (upkeep : Option Upkeep) : State :=
  { s with poll := poll, upkeep := upkeep }

theorem timed_self (s : State) : s.timed s.poll s.upkeep = s := rfl

theorem timed_fail (job : JobId) (reason : String) :
    (s.timed poll upkeep).fail job reason = (s.fail job reason).timed poll upkeep := by
  cases h : s.ledger.fail job reason s.now with
  | ok failed => simp only [fail, timed, h]
  | error fault => simp only [fail, timed, h]

theorem timed_freeSlot (job : JobId) :
    (s.timed poll upkeep).freeSlot job = (s.freeSlot job).timed poll upkeep := by
  cases h : s.line.release? job with
  | none => simp only [freeSlot, timed, h]
  | some line => simp only [freeSlot, timed, h]

theorem timed_planRetry (job : Job) (reason : String) :
    (s.timed poll upkeep).planRetry job reason =
      ((s.planRetry job reason).1, (s.planRetry job reason).2.timed poll upkeep) := by
  unfold planRetry
  split
  · cases h : s.ledger.retry job.id reason with
    | ok retried => simp only [timed, h]
    | error fault =>
      have hledger : (s.timed poll upkeep).ledger.retry job.id reason = .error fault := h
      simp only [hledger, timed_fail]
  · rw [timed_fail]

theorem timed_settleResult (job : Job) (requeues : Bool) (result : Except Failure Artifact) :
    (s.timed poll upkeep).settleResult job requeues result =
      ((s.settleResult job requeues result).1,
        (s.settleResult job requeues result).2.timed poll upkeep) := by
  cases result with
  | ok artifact =>
    cases h : s.ledger.complete job.id artifact s.now with
    | ok completed => simp only [settleResult, timed, h]
    | error fault => simp only [settleResult, timed, h]
  | error cause =>
    cases cause with
    | retriable reason =>
      cases requeues with
      | true => exact timed_planRetry job reason
      | false =>
        simp only [settleResult, timed_fail]
        rfl
    | nonRetriable reason => simp only [settleResult, timed_fail]
    | unexpected chain => simp only [settleResult, timed_fail]

theorem timed_followUp (job : JobId) (sequel : Sequel) :
    (s.timed poll upkeep).followUp job sequel =
      ((s.followUp job sequel).1, (s.followUp job sequel).2.timed poll upkeep) := by
  cases sequel with
  | done outcome => rfl
  | requeue priority reason =>
    have hqueue : (s.timed poll upkeep).queue.enqueue (s.timed poll upkeep).gate job priority
        (s.timed poll upkeep).now = s.queue.enqueue s.gate job priority s.now := rfl
    simp only [followUp, requeue, hqueue]
    cases s.queue.enqueue s.gate job priority s.now with
    | ok queued => rfl
    | error fault => simp only [timed_fail]

theorem timed_endTask (task : Task) (job : Job) (result : Except Failure Artifact) :
    (s.timed poll upkeep).endTask task job result =
      (s.endTask task job result).timed poll upkeep := by
  simp only [endTask, timed_settleResult, timed_freeSlot, timed_followUp]
  rfl

theorem timed_beginTask (task : Task) :
    (s.timed poll upkeep).beginTask task = (s.beginTask task).timed poll upkeep := by
  cases h : s.ledger.startAttempt task.job s.now with
  | ok started => simp only [beginTask, timed, h, setTask]
  | error fault =>
    have hfree : ({ s with tally := s.tally.begin }.timed poll upkeep).freeSlot task.job =
        ({ s with tally := s.tally.begin }.freeSlot task.job).timed poll upkeep :=
      timed_freeSlot task.job
    simp only [timed] at hfree
    simp only [beginTask, timed, h, hfree, book, dropTask]

theorem timed_report (job : JobId) (percent : Nat) :
    (s.timed poll upkeep).report job percent = (s.report job percent).timed poll upkeep := by
  cases h : s.ledger.setProgress job percent with
  | ok reported => simp only [report, timed, h]
  | error fault => simp only [report, timed, h]

theorem timed_hear (caller : Caller) (verdict : Verdict) :
    (s.timed poll upkeep).hear caller verdict = (s.hear caller verdict).timed poll upkeep := by
  cases verdict with
  | granted =>
    simp only [hear]
    cases caller.aim with
    | slot => rfl
    | run => rfl
  | refused => rfl
  | waits => rfl
  | panics => rfl

theorem timed_firstLook (caller : Caller) :
    (s.timed poll upkeep).firstLook caller = (s.firstLook caller).timed poll upkeep := by
  by_cases h : caller.aim = .run ∧ s.ledger.contains caller.job = false
  · simp only [firstLook, timed, h, and_self, if_true, setCaller]
  · have hhear : ∀ line verdict, ({ s with line := line }.timed poll upkeep).hear caller verdict =
        ({ s with line := line }.hear caller verdict).timed poll upkeep :=
      fun line => timed_hear caller
    simp only [timed] at hhear
    simp only [firstLook, timed, h, if_false]
    exact hhear _ _

theorem timed_nextLook : (s.timed poll upkeep).nextLook = s.nextLook.timed poll upkeep := by
  cases h : s.line.resume s.now with
  | none => simp only [nextLook, timed, h]
  | some resumed =>
    obtain ⟨call, line, verdict⟩ := resumed
    have hhear : ∀ caller, ({ s with line := line }.timed poll upkeep).hear caller verdict =
        ({ s with line := line }.hear caller verdict).timed poll upkeep :=
      fun caller => timed_hear caller verdict
    simp only [timed] at hhear
    simp only [nextLook, timed, h, caller?]
    cases s.callers.find? (fun caller => caller.tag == call.tag) with
    | none => rfl
    | some caller => exact hhear caller

theorem timed_enqueue (id : JobId) (priority : Int) :
    (s.timed poll upkeep).enqueue id priority =
      ((s.enqueue id priority).1, (s.enqueue id priority).2.timed poll upkeep) := by
  simp only [enqueue, timed]
  cases s.ledger.get? id with
  | none => rfl
  | some job =>
    by_cases hpending : job.status = .pending
    · simp only [hpending, if_true]
      cases s.ledger.setPriority id priority with
      | error fault => rfl
      | ok updated =>
        simp only [gate]
        cases s.queue.enqueue s.line.gate id priority s.now with
        | error fault => rfl
        | ok queued => rfl
    · simp only [hpending, if_false]

theorem timed_submit (id : JobId) (params : Params) (priority : Int) (maxRetries : Option Nat) :
    ((s.timed poll upkeep).submit id params priority maxRetries).2 =
      (s.submit id params priority maxRetries).2.timed poll upkeep := by
  have hadd : ((s.timed poll upkeep).addJob id params maxRetries).2 =
      (s.addJob id params maxRetries).2.timed poll upkeep := rfl
  rw [submit_eq, submit_eq, hadd, timed_enqueue]
  rcases (s.addJob id params maxRetries).2.enqueue id priority with ⟨_ | position, next⟩
  · rfl
  · rfl

theorem timed_withdrawJob (id : JobId) :
    ((s.timed poll upkeep).withdrawJob id).2 = (s.withdrawJob id).2.timed poll upkeep := by
  simp only [withdrawJob, timed]
  cases s.queue.erase? id with
  | none => rfl
  | some queue => rfl

theorem timed_takeNext : (s.timed poll upkeep).takeNext =
    s.takeNext.map (fun taken => (taken.1, taken.2.timed poll upkeep)) := by
  simp only [takeNext, timed, gate]
  cases s.queue.dequeue? s.line.gate with
  | none => rfl
  | some taken => rfl

theorem timed_takeJob :
    (s.timed poll upkeep).takeJob.2 = s.takeJob.2.timed poll upkeep := by
  rw [takeJob, takeJob, timed_takeNext]
  cases s.takeNext with
  | none => rfl
  | some taken => rfl

theorem timed_returnSlot (id : JobId) :
    ((s.timed poll upkeep).returnSlot id).2 = (s.returnSlot id).2.timed poll upkeep := by
  simp only [returnSlot, timed]
  cases s.line.release? id with
  | none => rfl
  | some line => rfl

theorem timed_protect (id : JobId) (path : String) :
    ((s.timed poll upkeep).protect id path).2 = (s.protect id path).2.timed poll upkeep := by
  cases h : s.ledger.contains id with
  | true => simp only [protect, timed, h, if_true]
  | false => simp only [protect, timed, h, Bool.false_eq_true, if_false]

theorem timed_sweep (dryRun : Bool) :
    (s.timed poll upkeep).apply (.sweep dryRun) = (s.apply (.sweep dryRun)).timed poll upkeep := by
  simp only [apply, sweep, timed]
  cases s.config.retention.sweep s.registry s.files s.now dryRun with
  | ok swept => rfl
  | error fault => rfl

theorem timed_abandon (tag : Nat) :
    (s.timed poll upkeep).abandon tag = (s.abandon tag).timed poll upkeep := by
  simp only [abandon, timed, caller?]
  cases s.callers.find? (fun caller => caller.tag == tag) with
  | none => rfl
  | some caller => cases hphase : caller.phase <;> simp only [hphase, setCaller]

theorem timed_burstWithin (fuel : Nat) (s : State) :
    burstWithin fuel (s.timed poll upkeep) = (burstWithin fuel s).timed poll upkeep := by
  induction fuel generalizing s with
  | zero => rfl
  | succ fuel ih =>
    rw [burstWithin, burstWithin, timed_takeNext]
    cases s.takeNext with
    | none => rfl
    | some taken => exact ih (taken.2.spawn taken.1 true)

theorem timed_pollQueue : (s.timed poll upkeep).pollQueue =
    s.burst.timed (some (Span.wakeAfter s.now s.config.poll.toMillis)) upkeep := by
  have hburst : (s.timed poll upkeep).burst = s.burst.timed poll upkeep :=
    timed_burstWithin s.queue.length s
  rw [pollQueue, hburst]
  rfl

theorem timed_maintain (done : Upkeep) : (s.timed poll upkeep).maintain done =
    (s.maintain done).timed poll (s.maintain done).upkeep := by
  have htidied : (s.timed poll upkeep).tidied = s.tidied.timed poll upkeep := rfl
  have hswept : (s.tidied.timed poll upkeep).swept = s.tidied.swept.timed poll upkeep := by
    simp only [swept, sweep, timed]
    cases s.tidied.config.retention.sweep s.tidied.registry s.tidied.files s.tidied.now false with
    | ok swept => rfl
    | error fault => rfl
  rw [maintain_eq, maintain_eq, htidied, hswept]
  show (if s.tidied.isSweepDue done.swept then _ else _) = _
  split
  · rfl
  · rfl

theorem exists_upkeep_of_maintain (s : State) (done : Upkeep) :
    ∃ next, (s.maintain done).upkeep = some next := by
  rw [maintain_eq]
  split
  · exact ⟨_, rfl⟩
  · exact ⟨_, rfl⟩

theorem timed_refuse (call : Call) :
    (match (s.timed poll upkeep).caller? call.tag with
      | none => s.timed poll upkeep
      | some caller => (s.timed poll upkeep).hear caller .refused) =
    State.timed (match s.caller? call.tag with
      | none => s
      | some caller => s.hear caller .refused) poll upkeep := by
  simp only [timed, caller?]
  cases s.callers.find? (fun caller => caller.tag == call.tag) with
  | none => rfl
  | some caller => rfl

theorem timed_expireCallers :
    (s.timed poll upkeep).expireCallers = s.expireCallers.timed poll upkeep :=
  @List.foldl_hom _ _ _ (timed · poll upkeep) _ _ (s.line.expire s.now).2
    { s with line := (s.line.expire s.now).1 } fun _ call => timed_refuse call

theorem timed_withCaller {f g : Caller → State} (tag : Nat)
    (h : ∀ caller, f caller = (g caller).timed poll upkeep) :
    (s.timed poll upkeep).withCaller tag f = (s.withCaller tag g).timed poll upkeep := by
  simp only [withCaller, timed, caller?]
  cases s.callers.find? (fun caller => caller.tag == tag) with
  | none => rfl
  | some caller => exact h caller

theorem timed_withTask {f g : Task → State} (ticket : Nat)
    (h : ∀ task, f task = (g task).timed poll upkeep) :
    (s.timed poll upkeep).withTask ticket f = (s.withTask ticket g).timed poll upkeep := by
  simp only [withTask, timed, task?]
  cases s.tasks.find? (fun task => task.ticket == ticket) with
  | none => rfl
  | some task => exact h task

end Foreman.Engine.State

namespace Foreman.Engine

-- The moves that hang on the times for polling and upkeep, or change them.
def Move.isTimed : Move → Bool
  | .start | .stop | .poll | .maintain | .pass _ => true
  | _ => false

namespace State

variable {s : State} {poll : Option Nat} {upkeep : Option Upkeep} {move : Move}

theorem timed_apply (h : move.isTimed = false) :
    (s.timed poll upkeep).apply move = (s.apply move).timed poll upkeep := by
  cases move with
  | create id params maxRetries => rfl
  | submit id params priority maxRetries => exact timed_submit id params priority maxRetries
  | enqueue id priority => exact congrArg Prod.snd (timed_enqueue id priority)
  | withdrawJob id => exact timed_withdrawJob id
  | takeJob => exact timed_takeJob
  | returnSlot id => exact timed_returnSlot id
  | askRate caller category => rfl
  | protect id path => exact timed_protect id path
  | unprotect id => rfl
  | evict => rfl
  | sweep dryRun => exact timed_sweep dryRun
  | arrive job aim timeout => rfl
  | abandon tag => exact timed_abandon tag
  | firstLook tag =>
    refine timed_withCaller tag fun caller => ?_
    cases caller.phase with
    | fresh => exact timed_firstLook caller
    | _ => rfl
  | nextLook => exact timed_nextLook
  | collect tag =>
    refine timed_withCaller tag fun caller => ?_
    cases caller.phase with
    | running ticket =>
      show (if s.isOver ticket then _ else _) = State.timed (if s.isOver ticket then _ else _) _ _
      split <;> rfl
    | _ => rfl
  | beginTask ticket =>
    refine timed_withTask ticket fun task => ?_
    cases task.stage with
    | starting => exact timed_beginTask task
    | running _ => rfl
  | report ticket percent =>
    refine timed_withTask ticket fun task => ?_
    cases task.stage with
    | starting => rfl
    | running _ => exact timed_report task.job percent
  | endTask ticket result =>
    refine timed_withTask ticket fun task => ?_
    cases task.stage with
    | starting => rfl
    | running job => exact timed_endTask task job result
  | start => cases h
  | stop => cases h
  | poll => cases h
  | maintain => cases h
  | pass now => cases h

-- Times that an engine does not have stay away.
theorem idle_apply (h : move.isTimed = false) (hpoll : s.poll = none) (hupkeep : s.upkeep = none) :
    (s.apply move).poll = none ∧ (s.apply move).upkeep = none := by
  have hsame : s.timed none none = s := by rw [← hpoll, ← hupkeep, timed_self]
  have hnext : (s.timed none none).apply move = (s.apply move).timed none none := timed_apply h
  rw [hsame] at hnext
  rw [hnext]
  exact ⟨rfl, rfl⟩

theorem all_min?_iff {times : List Nat} {now : Nat} :
    times.min?.all (fun due => now ≤ due) = true ↔ ∀ due ∈ times, now ≤ due := by
  cases hmin : times.min? with
  | none => simp [List.min?_eq_none_iff.mp hmin]
  | some first => simp [List.le_min?_iff hmin]

-- Time that may pass may also pass if there is nothing to poll and no upkeep.
theorem timed_pass {now : Nat} (hpoll : s.poll = none) (hupkeep : s.upkeep = none)
    (h : s.now ≤ now ∧ (s.timed poll upkeep).nextDue.all (fun due => now ≤ due) = true) :
    (s.timed poll upkeep).pass now = (s.pass now).timed poll upkeep := by
  have hdue : s.nextDue.all (fun due => now ≤ due) = true := by
    refine all_min?_iff.mpr fun due hmem => all_min?_iff.mp h.2 due ?_
    simp only [hpoll, hupkeep, Option.map_none, Option.toList_none, List.nil_append] at hmem
    exact List.mem_append_right _ hmem
  rw [pass, pass, if_pos (show (s.timed poll upkeep).now ≤ now ∧ _ from h), if_pos ⟨h.1, hdue⟩]
  exact timed_expireCallers (s := { s with now := now })

theorem idle_pass (now : Nat) : (s.pass now).poll = s.poll ∧ (s.pass now).upkeep = s.upkeep := by
  unfold pass
  split
  · obtain ⟨callers, heq, -⟩ := exists_expireCallers_eq { s with now := now }
    rw [heq]
    exact ⟨rfl, rfl⟩
  · exact ⟨rfl, rfl⟩

end State

end Foreman.Engine
