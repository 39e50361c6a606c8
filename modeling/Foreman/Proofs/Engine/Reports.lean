import Foreman.Proofs.Audit
import Foreman.Proofs.Engine.Frames

namespace Foreman.Engine.State

variable {s : State} {moves first second : List Move}

-- Whatever becomes of a job, its attempt is reported once.
theorem audit_endTask (s : State) (task : Task) (job : Job) (result : Except Failure Artifact) :
    ∃ record, (s.endTask task job result).audit = s.audit.push record := by
  have hsettled : (s.settleResult job task.requeues result).2.audit = s.audit := by
    obtain ⟨ledger, registry, heq⟩ := s.exists_settleResult_eq job task.requeues result
    rw [heq]
  rcases hsettle : s.settleResult job task.requeues result with ⟨sequel, settled⟩
  rw [hsettle] at hsettled
  have hlast : ((settled.freeSlot task.job).followUp task.job sequel).2.audit = s.audit := by
    obtain ⟨ledger, queue, heq⟩ := (settled.freeSlot task.job).exists_followUp_eq task.job sequel
    rw [heq]
    exact (settled.keepsRecords_freeSlot task.job).audit.trans hsettled
  rcases hfollow : (settled.freeSlot task.job).followUp task.job sequel with ⟨outcome, last⟩
  rw [hfollow] at hlast
  refine ⟨⟨task.job, job.attempt, outcome, Span.zero, last.now⟩, ?_⟩
  simp only [endTask, hsettle, hfollow, dropTask, book]
  exact congrArg (fun audit => Audit.push audit _) hlast

theorem audit_beginTask (s : State) (task : Task) :
    (s.beginTask task).audit = s.audit ∨
      ∃ record, (s.beginTask task).audit = s.audit.push record := by
  simp only [beginTask]
  split
  · exact .inl rfl
  · have hkept := (keepsRecords_freeSlot { s with tally := s.tally.begin } task.job).audit
    simp only [dropTask, book, hkept]
    exact .inr ⟨_, rfl⟩

theorem audit_enqueue (s : State) (id : JobId) (priority : Int) :
    (s.enqueue id priority).2.audit = s.audit := by
  obtain ⟨fault, heq, -⟩ | ⟨job, ledger, -, -, hcases⟩ := enqueue_cases s id priority
  · rw [heq]
  · obtain ⟨fault, heq, -⟩ | ⟨position, heq, -⟩ | ⟨position, heq, -⟩ := hcases
    · rw [heq]
    · rw [heq]
    · rw [heq]

theorem audit_submit (s : State) (id : JobId) (params : Params) (priority : Int)
    (maxRetries : Option Nat) : (s.submit id params priority maxRetries).2.audit = s.audit := by
  have hkept := audit_enqueue (s.addJob id params maxRetries).2 id priority
  rw [submit_eq]
  rcases henqueue : (s.addJob id params maxRetries).2.enqueue id priority with ⟨_ | position, next⟩
  · rw [henqueue] at hkept
    exact hkept
  · rw [henqueue] at hkept
    exact hkept

theorem audit_withdrawJob (s : State) (id : JobId) : (s.withdrawJob id).2.audit = s.audit := by
  unfold withdrawJob
  split
  · rfl
  · rfl

theorem audit_report (s : State) (job : JobId) (percent : Nat) :
    (s.report job percent).audit = s.audit := by
  unfold report
  split
  · rfl
  · rfl

theorem audit_maintain (s : State) (upkeep : Upkeep) : (s.maintain upkeep).audit = s.audit := by
  obtain ⟨limiter, files, next, heq⟩ := exists_maintain_eq s upkeep
  rw [heq]
  rfl

-- A move reports no more than one attempt, and nothing that was reported is ever taken back.
theorem audit_apply (s : State) (move : Move) :
    (s.apply move).audit = s.audit ∨ ∃ record, (s.apply move).audit = s.audit.push record := by
  cases move with
  | beginTask ticket =>
    simp only [apply, withTask]
    split
    · split
      · exact audit_beginTask s _
      · exact .inl rfl
    · exact .inl rfl
  | endTask ticket result =>
    simp only [apply, withTask]
    split
    · split
      · exact .inl rfl
      · exact .inr (audit_endTask s _ _ result)
    · exact .inl rfl
  | create id params maxRetries => exact .inl rfl
  | submit id params priority maxRetries =>
    exact .inl (audit_submit s id params priority maxRetries)
  | enqueue id priority => exact .inl (audit_enqueue s id priority)
  | withdrawJob id => exact .inl (audit_withdrawJob s id)
  | evict => exact .inl rfl
  | report ticket percent =>
    simp only [apply, withTask]
    split
    · split
      · exact .inl rfl
      · exact .inl (audit_report s _ percent)
    · exact .inl rfl
  | maintain =>
    simp only [apply]
    split
    · split
      · exact .inl (audit_maintain s _)
      · exact .inl rfl
    · exact .inl rfl
  | _ => exact .inl (s.keepsRecords_apply rfl).audit

-- The attempts that are reported in the course of a run.
def emitted (s : State) (moves : List Move) : List AttemptRecord :=
  (s.run moves).audit.reported.drop s.audit.reported.length

-- One after the other they are handed to the audit.
theorem audit_run (s : State) (moves : List Move) :
    ∃ records : List AttemptRecord, (s.run moves).audit = records.foldl Audit.push s.audit := by
  induction moves generalizing s with
  | nil => exact ⟨[], rfl⟩
  | cons move rest ih =>
    obtain ⟨records, hrest⟩ := ih (s.apply move)
    have hrun : s.run (move :: rest) = (s.apply move).run rest := rfl
    rw [hrun, hrest]
    rcases audit_apply s move with hsame | ⟨record, hpush⟩
    · exact ⟨records, by rw [hsame]⟩
    · exact ⟨record :: records, by rw [hpush, List.foldl_cons]⟩

theorem audit_run_emitted (s : State) (moves : List Move) :
    (s.run moves).audit = (s.emitted moves).foldl Audit.push s.audit := by
  obtain ⟨records, hrecords⟩ := audit_run s moves
  have hemitted : s.emitted moves = records := by
    rw [emitted, hrecords, Audit.reported_foldl_push, List.drop_left]
  rw [hemitted, hrecords]

theorem reported_run (s : State) (moves : List Move) :
    (s.run moves).audit.reported = s.audit.reported ++ s.emitted moves := by
  rw [audit_run_emitted, Audit.reported_foldl_push]

theorem emitted_append (s : State) (first second : List Move) :
    s.emitted (first ++ second) = s.emitted first ++ (s.run first).emitted second := by
  have hwhole := reported_run s (first ++ second)
  rw [run_append, reported_run, reported_run, List.append_assoc] at hwhole
  exact (List.append_cancel_left hwhole).symm

end Foreman.Engine.State
