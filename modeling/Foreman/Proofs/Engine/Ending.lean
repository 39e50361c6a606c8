import Foreman.Engine.Attempt
import Foreman.Proofs.Ledger.Record
import Foreman.Proofs.Queue.Order

namespace Foreman.Engine.State

-- What the result of an attempt makes of the job's record and of the queue, and how the attempt
-- enters the books. `job` is the record in the end.
inductive Concludes (s : State) (requeues : Bool) (job : Job) :
    Except Failure Artifact → Job → Queue → Outcome → Prop
  | completed (artifact : Artifact) :
      Concludes s requeues job (.ok artifact) (job.completedWith artifact s.now) s.queue .completed
  | retried {reason : String} (hrequeues : requeues = true) (hbudget : job.retries < job.maxRetries)
      (hroom : s.queue.length < s.queue.capacity) :
      Concludes s requeues job (.error (.retriable reason)) (job.retriedAfter reason)
        (s.queue.joined job.id (job.priority.getD Job.defaultPriority) s.now) .retried
  | crowdedOut {reason : String} (hrequeues : requeues = true)
      (hbudget : job.retries < job.maxRetries) (hfull : s.queue.capacity ≤ s.queue.length) :
      Concludes s requeues job (.error (.retriable reason))
        ((job.retriedAfter reason).failedWith (reason ++ "; retry could not be scheduled: " ++
          (Fault.queueFull s.queue.capacity).message) s.now) s.queue .failed
  | exhausted {reason : String} (hrequeues : requeues = true)
      (hbudget : job.maxRetries ≤ job.retries) :
      Concludes s requeues job (.error (.retriable reason))
        (job.failedWith ("retries exhausted after " ++ Text.ofNat (job.retries + 1) ++
          " attempts: " ++ reason) s.now) s.queue .failed
  | direct {reason : String} (hrequeues : requeues = false) :
      Concludes s requeues job (.error (.retriable reason))
        (job.failedWith ("retriable error on direct run: " ++ reason) s.now) s.queue .failed
  | nonRetriable (reason : String) :
      Concludes s requeues job (.error (.nonRetriable reason)) (job.failedWith reason s.now)
        s.queue .failed
  | unexpected (chain : List String) :
      Concludes s requeues job (.error (.unexpected chain))
        (job.failedWith ("unexpected error: " ++ Failure.joined chain) s.now) s.queue .failed

def claimsAfter (s : State) (job : JobId) : Except Failure Artifact → Registry
  | .ok artifact => s.registry.claim job (Path.ofText artifact.path)
  | .error _ => s.registry

variable {s : State} {job before next : Job} {id : JobId} {line : Line} {task : Task}
  {result : Except Failure Artifact}

theorem Concludes.ne_skipped {requeues : Bool} {queue : Queue} {outcome : Outcome}
    (h : s.Concludes requeues job result next queue outcome) : outcome ≠ .skipped := by
  cases h <;> simp

theorem canBecome_of_processing (hjob : s.ledger.get? id = some job)
    (hstatus : job.status = .processing) {target : Status}
    (htarget : Status.processing.canBecome target = true) :
    ¬ ∀ job, s.ledger.get? id = some job → job.status.canBecome target = false := by
  intro hall
  have hcan := hall job hjob
  rw [hstatus, htarget] at hcan
  cases hcan

theorem fail_rewrites (hjob : s.ledger.get? id = some job)
    (hcan : job.status.canBecome .failed = true) (reason : String) :
    ∃ ledger, s.fail id reason = { s with ledger := ledger } ∧
      s.ledger.Rewrites id job (job.failedWith reason s.now) ledger := by
  rcases s.ledger.fail_cases id reason s.now with
    ⟨found, ledger, -, hok, hrewrites⟩ | ⟨fault, -, hall⟩
  · obtain rfl := hrewrites.eq_before hjob
    exact ⟨ledger, by simp [fail, hok], hrewrites⟩
  · rw [hall job hjob] at hcan
    cases hcan

theorem fail_eq_self (hall : ∀ job, s.ledger.get? id = some job →
    job.status.canBecome .failed = false) (reason : String) : s.fail id reason = s := by
  rcases s.ledger.fail_cases id reason s.now with
    ⟨found, ledger, hcan, -, hrewrites⟩ | ⟨fault, herror, -⟩
  · rw [hall found hrewrites.before] at hcan
    cases hcan
  · simp [fail, herror]

theorem settleResult_over (hjob : s.ledger.get? before.id = some job)
    (hstatus : job.status = .processing) (hsame : job = { before with progress := job.progress })
    (requeues : Bool)
    (hfinal : ∀ reason, result = .error (.retriable reason) → requeues = true →
      before.canRetry = false) :
    ∃ next outcome ledger, s.Concludes requeues job result next s.queue outcome ∧
      s.ledger.Rewrites before.id job next ledger ∧
      s.settleResult before requeues result = (.done outcome,
        { s with ledger := ledger, registry := s.claimsAfter before.id result }) := by
  have hcan : job.status.canBecome .failed = true := hstatus ▸ rfl
  cases result with
  | ok artifact =>
    rcases s.ledger.complete_cases before.id artifact s.now with
      ⟨found, ledger, -, hok, hrewrites⟩ | ⟨fault, -, hall⟩
    · obtain rfl := hrewrites.eq_before hjob
      refine ⟨_, _, ledger, .completed artifact, hrewrites, ?_⟩
      simp [settleResult, claimsAfter, hok]
    · exact absurd hall (canBecome_of_processing hjob hstatus rfl)
  | error cause => cases cause with
    | retriable reason => cases requeues with
      | true =>
        have hbudget := hfinal reason rfl rfl
        have hspent : job.maxRetries ≤ job.retries := by
          rw [hsame]
          simpa [Job.canRetry] using hbudget
        have hattempt : before.attempt = job.retries + 1 := by
          rw [hsame]
          rfl
        obtain ⟨ledger, heq, hrewrites⟩ := fail_rewrites hjob hcan
          ("retries exhausted after " ++ Text.ofNat before.attempt ++ " attempts: " ++ reason)
        rw [hattempt] at hrewrites
        refine ⟨_, _, ledger, .exhausted rfl hspent, hrewrites, ?_⟩
        simp [settleResult, planRetry, claimsAfter, hbudget, heq]
      | false =>
        obtain ⟨ledger, heq, hrewrites⟩ := fail_rewrites hjob hcan
          ("retriable error on direct run: " ++ reason)
        refine ⟨_, _, ledger, .direct rfl, hrewrites, ?_⟩
        simp [settleResult, claimsAfter, heq]
    | nonRetriable reason =>
      obtain ⟨ledger, heq, hrewrites⟩ := fail_rewrites hjob hcan reason
      refine ⟨_, _, ledger, .nonRetriable reason, hrewrites, ?_⟩
      simp [settleResult, claimsAfter, heq]
    | unexpected chain =>
      obtain ⟨ledger, heq, hrewrites⟩ := fail_rewrites hjob hcan
        ("unexpected error: " ++ Failure.joined chain)
      refine ⟨_, _, ledger, .unexpected chain, hrewrites, ?_⟩
      simp [settleResult, claimsAfter, heq]

-- A result after which the job is to be tried again.
theorem settleResult_retried (hjob : s.ledger.get? before.id = some job)
    (hstatus : job.status = .processing) (hsame : job = { before with progress := job.progress })
    (hbudget : before.canRetry = true) (reason : String) :
    ∃ ledger, s.ledger.Rewrites before.id job (job.retriedAfter reason) ledger ∧
      s.settleResult before true (.error (.retriable reason)) =
        (.requeue (job.priority.getD Job.defaultPriority) reason, { s with ledger := ledger }) := by
  have hpriority : before.priority = job.priority := by rw [hsame]
  rcases s.ledger.retry_cases before.id reason with
    ⟨found, ledger, -, -, hok, hrewrites⟩ | ⟨fault, -, hall⟩
  · obtain rfl := hrewrites.eq_before hjob
    exact ⟨ledger, hrewrites, by simp [settleResult, planRetry, hbudget, hok, hpriority]⟩
  · rcases hall job hjob with hcan | hspent
    · rw [hstatus] at hcan
      cases hcan
    · rw [hsame] at hspent
      exact absurd hbudget (by simpa [Job.canRetry] using hspent)

-- A result that comes when there is a new job of the same name, or none, is not recorded.
theorem settleResult_stale (hrecord : ∀ job, s.ledger.get? before.id = some job →
    job.status = .pending) (requeues : Bool) (result : Except Failure Artifact) :
    ∃ outcome, s.settleResult before requeues result =
      (.done outcome, { s with registry := s.claimsAfter before.id result }) := by
  have hstuck : ∀ {target : Status}, Status.pending.canBecome target = false →
      ∀ job, s.ledger.get? before.id = some job → job.status.canBecome target = false :=
    fun htarget job hjob => hrecord job hjob ▸ htarget
  have hfail : ∀ reason, s.fail before.id reason = s := fail_eq_self (hstuck rfl)
  cases result with
  | ok artifact =>
    rcases s.ledger.complete_cases before.id artifact s.now with
      ⟨found, ledger, hcan, -, hrewrites⟩ | ⟨fault, herror, -⟩
    · rw [hstuck rfl found hrewrites.before] at hcan
      cases hcan
    · exact ⟨.failed, by simp [settleResult, claimsAfter, herror]⟩
  | error cause => cases cause with
    | retriable reason =>
      refine ⟨.failed, ?_⟩
      simp only [settleResult, claimsAfter, hfail]
      split
      · unfold planRetry
        rcases s.ledger.retry_cases before.id reason with
          ⟨found, ledger, hcan, -, -, hrewrites⟩ | ⟨fault, herror, -⟩
        · rw [hstuck rfl found hrewrites.before] at hcan
          cases hcan
        · simp only [herror, hfail]
          split <;> rfl
      · rfl
    | nonRetriable reason => exact ⟨.failed, by simp [settleResult, claimsAfter, hfail]⟩
    | unexpected chain => exact ⟨.failed, by simp [settleResult, claimsAfter, hfail]⟩

-- What an attempt leaves behind when it is over: its result is in the ledger, its slot is free,
-- its job is in the queue if it has to be, and the books say how it went.
def closed (s : State) (task : Task) (line : Line) (ledger : Ledger) (queue : Queue)
    (registry : Registry) (attempt : Nat) (outcome : Outcome) : State :=
  ({ s with
    line := line
    ledger := ledger
    queue := queue
    registry := registry }.book task.job attempt outcome).dropTask task.ticket

theorem endTask_concludes (hline : s.line.release? task.job = some line)
    (hnamed : before.id = task.job) (hjob : s.ledger.get? task.job = some job)
    (hstatus : job.status = .processing) (hsame : job = { before with progress := job.progress })
    (hout : task.job ∉ s.queue.order) (hfree : task.job ∉ line.gate.holders)
    (result : Except Failure Artifact) :
    ∃ next queue outcome ledger, s.Concludes task.requeues job result next queue outcome ∧
      s.ledger.Rewrites task.job job next ledger ∧
      s.endTask task before result = s.closed task line ledger queue
        (s.claimsAfter task.job result) (job.retries + 1) outcome := by
  have hattempt : before.attempt = job.retries + 1 := by
    rw [hsame]
    rfl
  have hid : job.id = task.job := (Ledger.get?_mem hjob).2
  rw [← hnamed] at hjob
  by_cases hagain : ∃ reason, result = .error (.retriable reason) ∧ task.requeues = true ∧
      before.canRetry = true
  · obtain ⟨reason, rfl, hrequeues, hbudget⟩ := hagain
    have hroom' : job.retries < job.maxRetries := by
      rw [hsame]
      simpa [Job.canRetry] using hbudget
    obtain ⟨ledger, hrewrites, hsettle⟩ := settleResult_retried hjob hstatus hsame hbudget reason
    rw [hnamed] at hrewrites
    rcases s.queue.enqueue_cases line.gate task.job (job.priority.getD Job.defaultPriority) s.now
      with ⟨hin, -⟩ | ⟨-, hheld, -⟩ | ⟨-, -, hfull, henqueue⟩ | ⟨-, -, hroom, position, henqueue⟩
    · exact absurd hin hout
    · exact absurd hheld hfree
    · -- The job is already down for another attempt when it turns out that there is no room.
      obtain ⟨last, hfail, hlast⟩ := fail_rewrites
        (s := { s with ledger := ledger, line := line }) hrewrites.after rfl
        (reason ++ "; retry could not be scheduled: " ++
          (Fault.queueFull s.queue.capacity).message)
      refine ⟨_, s.queue, .failed, last, .crowdedOut hrequeues hroom' hfull,
        hrewrites.trans hlast, ?_⟩
      simp only [endTask, hrequeues, hsettle, freeSlot, hline, followUp, requeue, State.gate,
        henqueue, hfail, hattempt, closed, claimsAfter]
    · refine ⟨_, _, .retried, ledger, .retried hrequeues hroom' hroom, hrewrites, ?_⟩
      simp only [endTask, hrequeues, hsettle, freeSlot, hline, followUp, requeue, State.gate,
        henqueue, hattempt, closed, claimsAfter, hid]
  · obtain ⟨next, outcome, ledger, hconcludes, hrewrites, hsettle⟩ :=
      settleResult_over hjob hstatus hsame task.requeues
        (fun reason hresult hrequeues => by
          simpa using fun hbudget => hagain ⟨reason, hresult, hrequeues, hbudget⟩)
    rw [hnamed] at hrewrites hsettle
    refine ⟨next, s.queue, outcome, ledger, hconcludes, hrewrites, ?_⟩
    simp only [endTask, hsettle, freeSlot, hline, followUp, hattempt, closed]

theorem endTask_stale (hline : s.line.release? task.job = some line)
    (hnamed : before.id = task.job)
    (hrecord : ∀ job, s.ledger.get? task.job = some job → job.status = .pending)
    (result : Except Failure Artifact) :
    ∃ outcome, s.endTask task before result = s.closed task line s.ledger s.queue
      (s.claimsAfter task.job result) before.attempt outcome := by
  rw [← hnamed] at hrecord
  obtain ⟨outcome, hsettle⟩ := settleResult_stale hrecord task.requeues result
  rw [hnamed] at hsettle
  refine ⟨outcome, ?_⟩
  simp only [endTask, hsettle, freeSlot, hline, followUp, closed]

end Foreman.Engine.State
