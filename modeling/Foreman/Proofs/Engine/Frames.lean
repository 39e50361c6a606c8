import Foreman.Proofs.Engine.Shape

namespace Foreman.Engine

-- Whether a move can write down anything about jobs or the attempts at them.
def Move.records : Move → Bool
  | .create .. | .submit .. | .enqueue .. | .withdrawJob _ | .evict | .maintain => true
  | .beginTask _ | .report .. | .endTask .. => true
  | _ => false

-- Whether a move is a single step where there are several threads.
def Move.isWhole : Move → Bool
  | .submit .. | .enqueue .. | .beginTask _ | .endTask .. => false
  | _ => true

namespace State

-- Neither the records of jobs nor those of attempts change.
structure KeepsRecords (s s' : State) : Prop where
  ledger : s'.ledger = s.ledger
  audit : s'.audit = s.audit

variable {s s' s'' : State} {move : Move}

theorem KeepsRecords.refl (s : State) : s.KeepsRecords s := ⟨rfl, rfl⟩

theorem keepsRecords_freeSlot (s : State) (job : JobId) : s.KeepsRecords (s.freeSlot job) := by
  unfold freeSlot
  split
  · exact ⟨rfl, rfl⟩
  · exact .refl s

theorem keepsRecords_takeJob (s : State) : s.KeepsRecords s.takeJob.2 := by
  unfold takeJob
  obtain hnone | ⟨job, queue, gate, hsome, -, -, -⟩ := takeNext_cases s
  · rw [hnone]
    exact .refl s
  · rw [hsome]
    exact ⟨rfl, rfl⟩

theorem keepsRecords_returnSlot (s : State) (id : JobId) :
    s.KeepsRecords (s.returnSlot id).2 := by
  unfold returnSlot
  split
  · exact .refl s
  · exact ⟨rfl, rfl⟩

theorem keepsRecords_protect (s : State) (id : JobId) (path : String) :
    s.KeepsRecords (s.protect id path).2 := by
  unfold protect
  split
  · exact ⟨rfl, rfl⟩
  · exact .refl s

theorem keepsRecords_sweep (s : State) (dryRun : Bool) :
    s.KeepsRecords (s.apply (.sweep dryRun)) := by
  obtain heq | ⟨-, files, heq⟩ := s.apply_sweep_cases dryRun
  · rw [heq]
    exact .refl s
  · rw [heq]
    exact ⟨rfl, rfl⟩

theorem keepsRecords_abandon (s : State) (tag : Nat) : s.KeepsRecords (s.abandon tag) := by
  unfold abandon
  split
  · exact .refl s
  · split
    · exact .refl s
    · exact .refl s
    · exact ⟨rfl, rfl⟩

theorem keepsRecords_hear (s : State) (caller : Caller) (verdict : Verdict) :
    s.KeepsRecords (s.hear caller verdict) := by
  cases verdict with
  | granted =>
    simp only [hear]
    split
    · exact ⟨rfl, rfl⟩
    · exact ⟨rfl, rfl⟩
  | refused => exact ⟨rfl, rfl⟩
  | waits => exact ⟨rfl, rfl⟩
  | panics => exact ⟨rfl, rfl⟩

theorem keepsRecords_firstLook (s : State) (caller : Caller) :
    s.KeepsRecords (s.firstLook caller) := by
  unfold firstLook
  split
  · exact ⟨rfl, rfl⟩
  · obtain ⟨hledger, haudit⟩ := keepsRecords_hear
      { s with line := (s.line.lookFirst s.now ⟨caller.tag, caller.job, s.now + caller.timeout⟩).1 }
      caller (s.line.lookFirst s.now ⟨caller.tag, caller.job, s.now + caller.timeout⟩).2
    exact ⟨hledger, haudit⟩

theorem keepsRecords_nextLook (s : State) : s.KeepsRecords s.nextLook := by
  unfold nextLook
  split
  · exact .refl s
  · rename_i line verdict hresume
    simp only
    split
    · exact ⟨rfl, rfl⟩
    · obtain ⟨hledger, haudit⟩ := keepsRecords_hear { s with line := line } _ verdict
      exact ⟨hledger, haudit⟩

theorem keepsRecords_burstWithin (fuel : Nat) (s : State) :
    s.KeepsRecords (burstWithin fuel s) := by
  induction fuel generalizing s with
  | zero => exact .refl s
  | succ fuel ih =>
    unfold burstWithin
    obtain hnone | ⟨job, queue, gate, hsome, -, -, -⟩ := takeNext_cases s
    · rw [hnone]
      exact .refl s
    · rw [hsome]
      obtain ⟨hledger, haudit⟩ := ih _
      exact ⟨hledger, haudit⟩

theorem keepsRecords_pass (s : State) (now : Nat) : s.KeepsRecords (s.pass now) := by
  unfold pass
  split
  · obtain ⟨callers, heq, -⟩ := exists_expireCallers_eq { s with now := now }
    rw [heq]
    exact ⟨rfl, rfl⟩
  · exact .refl s

-- All other moves leave what is written down as it is.
theorem keepsRecords_apply (s : State) (h : move.records = false) :
    s.KeepsRecords (s.apply move) := by
  cases move with
  | takeJob => exact s.keepsRecords_takeJob
  | returnSlot id => exact s.keepsRecords_returnSlot id
  | askRate caller category => exact ⟨rfl, rfl⟩
  | protect id path => exact s.keepsRecords_protect id path
  | unprotect id => exact ⟨rfl, rfl⟩
  | sweep dryRun => exact s.keepsRecords_sweep dryRun
  | start => exact ⟨rfl, rfl⟩
  | stop => exact ⟨rfl, rfl⟩
  | arrive job aim timeout => exact ⟨rfl, rfl⟩
  | abandon tag => exact s.keepsRecords_abandon tag
  | firstLook tag =>
    simp only [apply, withCaller]
    split
    · split
      · exact s.keepsRecords_firstLook _
      · exact .refl s
    · exact .refl s
  | nextLook => exact s.keepsRecords_nextLook
  | collect tag =>
    simp only [apply, withCaller]
    split
    · split
      · split
        · exact ⟨rfl, rfl⟩
        · exact .refl s
      · exact .refl s
    · exact .refl s
  | poll =>
    simp only [apply]
    split
    · split
      · obtain ⟨hledger, haudit⟩ := keepsRecords_burstWithin s.queue.length s
        exact ⟨hledger, haudit⟩
      · exact .refl s
    · exact .refl s
  | pass now => exact s.keepsRecords_pass now
  | _ => cases h

-- The attempts there are go on as before, and none of them is counted or reported. There may be
-- more of them, which have not begun.
structure KeepsAttempts (s s' : State) : Prop where
  tally : s'.tally = s.tally
  audit : s'.audit = s.audit
  tasks : ∃ more, s'.tasks = s.tasks ++ more ∧ ∀ task ∈ more, task.stage = .starting

theorem KeepsAttempts.of_tasks (htally : s'.tally = s.tally) (haudit : s'.audit = s.audit)
    (htasks : s'.tasks = s.tasks) : s.KeepsAttempts s' :=
  ⟨htally, haudit, [], htasks.trans (List.append_nil _).symm, by simp⟩

theorem KeepsAttempts.refl (s : State) : s.KeepsAttempts s := .of_tasks rfl rfl rfl

theorem KeepsAttempts.trans (h : s.KeepsAttempts s') (h' : s'.KeepsAttempts s'') :
    s.KeepsAttempts s'' := by
  obtain ⟨first, hfirst, hstarting⟩ := h.tasks
  obtain ⟨second, hsecond, hstarting'⟩ := h'.tasks
  refine ⟨h'.tally.trans h.tally, h'.audit.trans h.audit, first ++ second, ?_, ?_⟩
  · rw [hsecond, hfirst, List.append_assoc]
  · intro task htask
    exact (List.mem_append.mp htask).elim (hstarting task) (hstarting' task)

theorem keepsAttempts_spawn (s : State) (job : JobId) (requeues : Bool) :
    s.KeepsAttempts (s.spawn job requeues) :=
  ⟨rfl, rfl, [⟨s.issued, job, requeues, .starting⟩], rfl, by simp⟩

theorem keepsAttempts_withdrawJob (s : State) (id : JobId) :
    s.KeepsAttempts (s.withdrawJob id).2 := by
  unfold withdrawJob
  split
  · exact .refl s
  · exact .of_tasks rfl rfl rfl

theorem keepsAttempts_takeJob (s : State) : s.KeepsAttempts s.takeJob.2 := by
  unfold takeJob
  obtain hnone | ⟨job, queue, gate, hsome, -, -, -⟩ := takeNext_cases s
  · rw [hnone]
    exact .refl s
  · rw [hsome]
    exact .of_tasks rfl rfl rfl

theorem keepsAttempts_returnSlot (s : State) (id : JobId) :
    s.KeepsAttempts (s.returnSlot id).2 := by
  unfold returnSlot
  split
  · exact .refl s
  · exact .of_tasks rfl rfl rfl

theorem keepsAttempts_protect (s : State) (id : JobId) (path : String) :
    s.KeepsAttempts (s.protect id path).2 := by
  unfold protect
  split
  · exact .of_tasks rfl rfl rfl
  · exact .refl s

theorem keepsAttempts_sweep (s : State) (dryRun : Bool) :
    s.KeepsAttempts (s.apply (.sweep dryRun)) := by
  obtain heq | ⟨-, files, heq⟩ := s.apply_sweep_cases dryRun
  · rw [heq]
    exact .refl s
  · rw [heq]
    exact .of_tasks rfl rfl rfl

theorem keepsAttempts_abandon (s : State) (tag : Nat) : s.KeepsAttempts (s.abandon tag) := by
  unfold abandon
  split
  · exact .refl s
  · split
    · exact .refl s
    · exact .refl s
    · exact .of_tasks rfl rfl rfl

-- Someone who runs a job directly makes for one more attempt.
theorem keepsAttempts_hear (s : State) (caller : Caller) (verdict : Verdict) :
    s.KeepsAttempts (s.hear caller verdict) := by
  cases verdict with
  | granted =>
    simp only [hear]
    split
    · exact .of_tasks rfl rfl rfl
    · have hheard : s.KeepsAttempts ({ s with
          queue := (s.queue.erase? caller.job).getD s.queue }.setCaller caller.tag
            (.running s.issued)) := .of_tasks rfl rfl rfl
      exact hheard.trans (keepsAttempts_spawn _ caller.job false)
  | refused => exact .of_tasks rfl rfl rfl
  | waits => exact .of_tasks rfl rfl rfl
  | panics => exact .of_tasks rfl rfl rfl

theorem keepsAttempts_firstLook (s : State) (caller : Caller) :
    s.KeepsAttempts (s.firstLook caller) := by
  unfold firstLook
  split
  · exact .of_tasks rfl rfl rfl
  · have hlooked : s.KeepsAttempts { s with
        line := (s.line.lookFirst s.now ⟨caller.tag, caller.job, s.now + caller.timeout⟩).1 } :=
      .of_tasks rfl rfl rfl
    exact hlooked.trans (keepsAttempts_hear _ caller _)

theorem keepsAttempts_nextLook (s : State) : s.KeepsAttempts s.nextLook := by
  unfold nextLook
  split
  · exact .refl s
  · rename_i line verdict hresume
    have hlooked : s.KeepsAttempts { s with line := line } := .of_tasks rfl rfl rfl
    simp only
    split
    · exact hlooked
    · exact hlooked.trans (keepsAttempts_hear _ _ verdict)

theorem keepsAttempts_report (s : State) (job : JobId) (percent : Nat) :
    s.KeepsAttempts (s.report job percent) := by
  unfold report
  split
  · exact .of_tasks rfl rfl rfl
  · exact .refl s

theorem keepsAttempts_burstWithin (fuel : Nat) (s : State) :
    s.KeepsAttempts (burstWithin fuel s) := by
  induction fuel generalizing s with
  | zero => exact .refl s
  | succ fuel ih =>
    unfold burstWithin
    obtain hnone | ⟨job, queue, gate, hsome, -, -, -⟩ := takeNext_cases s
    · rw [hnone]
      exact .refl s
    · rw [hsome]
      have htaken : s.KeepsAttempts { s with
          queue := queue, line := { s.line with gate := gate } } := .of_tasks rfl rfl rfl
      exact (htaken.trans (keepsAttempts_spawn _ job true)).trans (ih _)

theorem keepsAttempts_pollQueue (s : State) : s.KeepsAttempts s.pollQueue :=
  (keepsAttempts_burstWithin s.queue.length s).trans (.of_tasks rfl rfl rfl)

theorem keepsAttempts_maintain (s : State) (upkeep : Upkeep) :
    s.KeepsAttempts (s.maintain upkeep) := by
  obtain ⟨limiter, files, next, heq⟩ := exists_maintain_eq s upkeep
  rw [heq]
  exact .of_tasks rfl rfl rfl

theorem keepsAttempts_pass (s : State) (now : Nat) : s.KeepsAttempts (s.pass now) := by
  unfold pass
  split
  · obtain ⟨callers, heq, -⟩ := exists_expireCallers_eq { s with now := now }
    rw [heq]
    exact .of_tasks rfl rfl rfl
  · exact .refl s

theorem keepsAttempts_apply (s : State) (h : move.isWhole = true) :
    s.KeepsAttempts (s.apply move) := by
  cases move with
  | create id params maxRetries => exact .of_tasks rfl rfl rfl
  | withdrawJob id => exact s.keepsAttempts_withdrawJob id
  | takeJob => exact s.keepsAttempts_takeJob
  | returnSlot id => exact s.keepsAttempts_returnSlot id
  | askRate caller category => exact .of_tasks rfl rfl rfl
  | protect id path => exact s.keepsAttempts_protect id path
  | unprotect id => exact .of_tasks rfl rfl rfl
  | evict => exact .of_tasks rfl rfl rfl
  | sweep dryRun => exact s.keepsAttempts_sweep dryRun
  | start => exact .of_tasks rfl rfl rfl
  | stop => exact .of_tasks rfl rfl rfl
  | arrive job aim timeout => exact .of_tasks rfl rfl rfl
  | abandon tag => exact s.keepsAttempts_abandon tag
  | firstLook tag =>
    simp only [apply, withCaller]
    split
    · split
      · exact s.keepsAttempts_firstLook _
      · exact .refl s
    · exact .refl s
  | nextLook => exact s.keepsAttempts_nextLook
  | collect tag =>
    simp only [apply, withCaller]
    split
    · split
      · split
        · exact .of_tasks rfl rfl rfl
        · exact .refl s
      · exact .refl s
    · exact .refl s
  | report ticket percent =>
    simp only [apply, withTask]
    split
    · split
      · exact .refl s
      · exact s.keepsAttempts_report _ percent
    · exact .refl s
  | poll =>
    simp only [apply]
    split
    · split
      · exact s.keepsAttempts_pollQueue
      · exact .refl s
    · exact .refl s
  | maintain =>
    simp only [apply]
    split
    · split
      · exact s.keepsAttempts_maintain _
      · exact .refl s
    · exact .refl s
  | pass now => exact s.keepsAttempts_pass now
  | _ => cases h

end State

end Foreman.Engine
