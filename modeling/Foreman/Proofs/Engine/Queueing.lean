import Foreman.Proofs.Engine.Shape

namespace Foreman.Engine.State

variable {s : State} {move : Move}

-- The moves that can change the queue without the dispatcher: requests, direct runs that get their
-- slot, and attempts that fail and are made again.
def Alters (s : State) : Move → Prop
  | .submit .. | .enqueue .. | .withdrawJob _ | .takeJob => True
  | .endTask ticket result => ∃ task reason, s.task? ticket = some task ∧ task.requeues = true ∧
    result = .error (.retriable reason)
  | move => ∃ caller, s.hears? move = some (caller, .granted) ∧ caller.aim = .run

theorem queue_fail (s : State) (job : JobId) (reason : String) :
    (s.fail job reason).queue = s.queue := by
  obtain ⟨ledger, heq⟩ := s.exists_fail_eq job reason
  rw [heq]

theorem queue_freeSlot (s : State) (job : JobId) : (s.freeSlot job).queue = s.queue := by
  unfold freeSlot
  split
  · rfl
  · rfl

theorem queue_settleResult (s : State) (job : Job) (requeues : Bool)
    (result : Except Failure Artifact) : (s.settleResult job requeues result).2.queue = s.queue := by
  obtain ⟨ledger, registry, heq⟩ := s.exists_settleResult_eq job requeues result
  rw [heq]

-- An attempt that is not made again is over.
theorem settleResult_done (s : State) (job : Job) {requeues : Bool}
    {result : Except Failure Artifact}
    (h : ∀ reason, result = .error (.retriable reason) → requeues = false) :
    ∃ outcome, (s.settleResult job requeues result).1 = .done outcome := by
  cases result with
  | ok artifact =>
    simp only [settleResult]
    split
    · exact ⟨_, rfl⟩
    · exact ⟨_, rfl⟩
  | error cause =>
    cases cause with
    | retriable reason =>
      simp only [settleResult, h reason rfl, Bool.false_eq_true, if_false]
      exact ⟨_, rfl⟩
    | nonRetriable reason => exact ⟨_, rfl⟩
    | unexpected chain => exact ⟨_, rfl⟩

theorem queue_endTask (task : Task) (job : Job) {result : Except Failure Artifact}
    (h : ∀ reason, result = .error (.retriable reason) → task.requeues = false) :
    (s.endTask task job result).queue = s.queue := by
  have hqueue := s.queue_settleResult job task.requeues result
  obtain ⟨outcome, hdone⟩ := s.settleResult_done job h
  rcases hsettle : s.settleResult job task.requeues result with ⟨sequel, settled⟩
  rw [hsettle] at hdone hqueue
  obtain rfl : sequel = .done outcome := hdone
  simp only [endTask, hsettle, followUp, dropTask, book, queue_freeSlot]
  exact hqueue

theorem queue_beginTask (s : State) (task : Task) : (s.beginTask task).queue = s.queue := by
  simp only [beginTask]
  split
  · rfl
  · simp only [dropTask, book, queue_freeSlot]

theorem queue_report (s : State) (job : JobId) (percent : Nat) :
    (s.report job percent).queue = s.queue := by
  unfold report
  split
  · rfl
  · rfl

theorem queue_hear (s : State) (caller : Caller) {verdict : Verdict}
    (h : ¬ (verdict = .granted ∧ caller.aim = .run)) :
    (s.hear caller verdict).queue = s.queue := by
  cases verdict with
  | granted =>
    cases haim : caller.aim with
    | slot => simp only [hear, haim, setCaller]
    | run => exact absurd ⟨rfl, haim⟩ h
  | refused => rfl
  | waits => rfl
  | panics => rfl

theorem queue_firstLook {tag : Nat} (h : ¬ s.Alters (.firstLook tag)) :
    (s.apply (.firstLook tag)).queue = s.queue := by
  simp only [apply, withCaller]
  split
  · rename_i caller hcaller
    split
    · rename_i hphase
      unfold firstLook
      split
      · rfl
      · rcases hlook : s.line.lookFirst s.now ⟨caller.tag, caller.job, s.now + caller.timeout⟩ with
          ⟨line, verdict⟩
        refine queue_hear { s with line := line } caller ?_
        rintro ⟨rfl, haim⟩
        refine h ⟨caller, ?_, haim⟩
        simp only [hears?, hcaller, hphase, hlook]
    · rfl
  · rfl

theorem queue_nextLook (h : ¬ s.Alters .nextLook) : s.nextLook.queue = s.queue := by
  unfold nextLook
  cases hresume : s.line.resume s.now with
  | none => rfl
  | some resumed =>
    obtain ⟨call, line, verdict⟩ := resumed
    simp only
    split
    · rfl
    · rename_i caller hcaller
      refine queue_hear _ caller ?_
      rintro ⟨hgranted, haim⟩
      refine h ⟨caller, ?_, haim⟩
      have hfound : s.caller? call.tag = some caller := hcaller
      simp [hears?, hresume, hfound, hgranted]

theorem queue_returnSlot (s : State) (id : JobId) : (s.returnSlot id).2.queue = s.queue := by
  unfold returnSlot
  split
  · rfl
  · rfl

theorem queue_protect (s : State) (id : JobId) (path : String) :
    (s.protect id path).2.queue = s.queue := by
  unfold protect
  split
  · rfl
  · rfl

theorem queue_abandon (s : State) (tag : Nat) : (s.abandon tag).queue = s.queue := by
  unfold abandon
  split
  · rfl
  · split
    · rfl
    · rfl
    · rfl

theorem queue_sweep (s : State) (dryRun : Bool) : (s.apply (.sweep dryRun)).queue = s.queue := by
  obtain heq | ⟨-, files, heq⟩ := s.apply_sweep_cases dryRun
  · rw [heq]
  · rw [heq]

theorem queue_maintain (s : State) (upkeep : Upkeep) : (s.maintain upkeep).queue = s.queue := by
  obtain ⟨limiter, files, next, heq⟩ := exists_maintain_eq s upkeep
  rw [heq]
  rfl

theorem queue_pass (s : State) (now : Nat) : (s.pass now).queue = s.queue := by
  unfold pass
  split
  · obtain ⟨callers, heq, -⟩ := exists_expireCallers_eq { s with now := now }
    rw [heq]
  · rfl

-- Without the dispatcher nothing but these moves changes the queue.
theorem queue_apply (hpoll : move ≠ .poll) (h : ¬ s.Alters move) :
    (s.apply move).queue = s.queue := by
  cases move with
  | submit id params priority maxRetries => exact absurd trivial h
  | enqueue id priority => exact absurd trivial h
  | withdrawJob id => exact absurd trivial h
  | takeJob => exact absurd trivial h
  | poll => exact absurd rfl hpoll
  | create id params maxRetries => rfl
  | returnSlot id => exact queue_returnSlot s id
  | askRate caller category => rfl
  | protect id path => exact queue_protect s id path
  | unprotect id => rfl
  | evict => rfl
  | sweep dryRun => exact queue_sweep s dryRun
  | start => rfl
  | stop => rfl
  | arrive job aim timeout => rfl
  | abandon tag => exact queue_abandon s tag
  | firstLook tag => exact queue_firstLook h
  | nextLook => exact queue_nextLook h
  | collect tag =>
    simp only [apply, withCaller]
    split
    · split
      · split
        · rfl
        · rfl
      · rfl
    · rfl
  | beginTask ticket =>
    simp only [apply, withTask]
    split
    · split
      · exact queue_beginTask s _
      · rfl
    · rfl
  | report ticket percent =>
    simp only [apply, withTask]
    split
    · split
      · rfl
      · exact queue_report s _ percent
    · rfl
  | endTask ticket result =>
    simp only [apply, withTask]
    split
    · rename_i task htask
      split
      · rfl
      · refine queue_endTask task _ fun reason hresult => ?_
        by_contra hrequeues
        exact h ⟨task, reason, htask, by simpa using hrequeues, hresult⟩
    · rfl
  | maintain =>
    simp only [apply]
    split
    · split
      · exact queue_maintain s _
      · rfl
    · rfl
  | pass now => exact queue_pass s now

end Foreman.Engine.State
