import Foreman.Proofs.Engine.Custody
import Foreman.Proofs.Engine.Frames
import Foreman.Proofs.Ledger.Frozen

namespace Foreman

namespace Ledger

-- One ledger comes of another by what is asked of it.
def Reaches (l l' : Ledger) : Prop := ∃ deeds : List Deed, l' = l.after deeds

variable {l l' l'' : Ledger}

theorem Reaches.refl (l : Ledger) : l.Reaches l := ⟨[], rfl⟩

theorem Reaches.trans (h : l.Reaches l') (h' : l'.Reaches l'') : l.Reaches l'' := by
  obtain ⟨first, rfl⟩ := h
  obtain ⟨second, rfl⟩ := h'
  exact ⟨first ++ second, (l.after_append first second).symm⟩

theorem reaches_act (l : Ledger) (now : Nat) (act : Act) : l.Reaches (l.act now act) :=
  ⟨[⟨now, act⟩], rfl⟩

theorem Reaches.of_eq (h : l' = l) : l.Reaches l' := h ▸ .refl l

-- What is not turned down.
theorem Reaches.of_ok {α : Type} {r : Except Fault (α × Ledger)} {answer : α} (now : Nat)
    (act : Act) (hact : l.act now act = l.settled r) (hok : r = .ok (answer, l')) :
    l.Reaches l' := by
  have hreaches := l.reaches_act now act
  rwa [hact, hok] at hreaches

theorem Reaches.distinct (h : l.Reaches l') (hdistinct : l.Distinct) : l'.Distinct := by
  obtain ⟨deeds, rfl⟩ := h
  exact distinct_after hdistinct deeds

end Ledger

namespace Engine

namespace State

theorem reaches_fail (s : State) (job : JobId) (reason : String) :
    s.ledger.Reaches (s.fail job reason).ledger := by
  unfold fail
  split
  · rename_i hok
    exact .of_ok s.now (.fail job reason) rfl hok
  · exact .refl _

theorem reaches_planRetry (s : State) (job : Job) (reason : String) :
    s.ledger.Reaches (s.planRetry job reason).2.ledger := by
  unfold planRetry
  split
  · split
    · rename_i hok
      exact .of_ok s.now (.retry job.id reason) rfl hok
    · exact s.reaches_fail _ _
  · exact s.reaches_fail _ _

theorem reaches_settleResult (s : State) (job : Job) (requeues : Bool)
    (result : Except Failure Artifact) :
    s.ledger.Reaches (s.settleResult job requeues result).2.ledger := by
  cases result with
  | ok artifact =>
    simp only [settleResult]
    split
    · rename_i hok
      exact .of_ok s.now (.complete job.id artifact) rfl hok
    · exact .refl _
  | error cause =>
    cases cause with
    | retriable reason =>
      simp only [settleResult]
      split
      · exact s.reaches_planRetry job reason
      · exact s.reaches_fail _ _
    | nonRetriable reason => exact s.reaches_fail _ _
    | unexpected chain => exact s.reaches_fail _ _

theorem reaches_followUp (s : State) (job : JobId) (sequel : Sequel) :
    s.ledger.Reaches (s.followUp job sequel).2.ledger := by
  cases sequel with
  | done outcome => exact .refl _
  | requeue priority reason =>
    simp only [followUp, requeue]
    split
    · exact .refl _
    · exact s.reaches_fail _ _

theorem reaches_endTask (s : State) (task : Task) (job : Job) (result : Except Failure Artifact) :
    s.ledger.Reaches (s.endTask task job result).ledger := by
  have hsettled := s.reaches_settleResult job task.requeues result
  rcases hsettle : s.settleResult job task.requeues result with ⟨sequel, settled⟩
  have hlast := (settled.freeSlot task.job).reaches_followUp task.job sequel
  rw [hsettle] at hsettled
  rw [(settled.keepsRecords_freeSlot task.job).ledger] at hlast
  simp only [endTask, hsettle]
  exact hsettled.trans hlast

theorem reaches_beginTask (s : State) (task : Task) :
    s.ledger.Reaches (s.beginTask task).ledger := by
  simp only [beginTask]
  split
  · rename_i hok
    exact .of_ok s.now (.startAttempt task.job) rfl hok
  · exact .of_eq (keepsRecords_freeSlot { s with tally := s.tally.begin } task.job).ledger

theorem reaches_report (s : State) (job : JobId) (percent : Nat) :
    s.ledger.Reaches (s.report job percent).ledger := by
  unfold report
  split
  · rename_i hok
    exact .of_ok s.now (.setProgress job percent) rfl hok
  · exact .refl _

theorem reaches_addJob (s : State) (id : JobId) (params : Params) (maxRetries : Option Nat) :
    s.ledger.Reaches (s.addJob id params maxRetries).2.ledger :=
  s.ledger.reaches_act s.now (.create id params (maxRetries.getD s.config.maxRetries))

-- The priority is on record before the queue is asked, and stays there whatever the queue says.
theorem reaches_enqueue (s : State) (id : JobId) (priority : Int) :
    s.ledger.Reaches (s.enqueue id priority).2.ledger := by
  unfold enqueue
  split
  · exact .refl _
  · split
    · split
      · exact .refl _
      · rename_i hok
        have hput := Ledger.Reaches.of_ok s.now (.setPriority id priority) rfl hok
        simp only
        split
        · exact hput
        · exact hput
    · exact .refl _

theorem reaches_forget (s : State) (id : JobId) : s.ledger.Reaches (s.forget id).ledger :=
  s.ledger.reaches_act s.now (.discard id)

theorem reaches_submit (s : State) (id : JobId) (params : Params) (priority : Int)
    (maxRetries : Option Nat) :
    s.ledger.Reaches (s.submit id params priority maxRetries).2.ledger := by
  have hadded := s.reaches_addJob id params maxRetries
  have henqueued := (s.addJob id params maxRetries).2.reaches_enqueue id priority
  rw [submit_eq]
  rcases henqueue : (s.addJob id params maxRetries).2.enqueue id priority with ⟨_ | position, next⟩
  · rw [henqueue] at henqueued
    exact (hadded.trans henqueued).trans (next.reaches_forget id)
  · rw [henqueue] at henqueued
    exact hadded.trans henqueued

theorem reaches_withdrawJob (s : State) (id : JobId) :
    s.ledger.Reaches (s.withdrawJob id).2.ledger := by
  unfold withdrawJob
  split
  · exact .refl _
  · exact s.reaches_forget id

theorem reaches_evictOld (s : State) : s.ledger.Reaches s.evictOld.2.ledger :=
  s.ledger.reaches_act s.now (.evict s.config.ttl.toMillis)

theorem reaches_maintain (s : State) (upkeep : Upkeep) :
    s.ledger.Reaches (s.maintain upkeep).ledger := by
  obtain ⟨limiter, files, next, heq⟩ := exists_maintain_eq s upkeep
  rw [heq]
  exact s.reaches_evictOld

-- Whatever a move makes of the ledger, it makes by what can be asked of one.
theorem reaches_apply (s : State) (move : Move) : s.ledger.Reaches (s.apply move).ledger := by
  cases move with
  | create id params maxRetries => exact s.reaches_addJob id params maxRetries
  | submit id params priority maxRetries => exact s.reaches_submit id params priority maxRetries
  | enqueue id priority => exact s.reaches_enqueue id priority
  | withdrawJob id => exact s.reaches_withdrawJob id
  | evict => exact s.reaches_evictOld
  | beginTask ticket =>
    simp only [apply, withTask]
    split
    · split
      · exact s.reaches_beginTask _
      · exact .refl _
    · exact .refl _
  | report ticket percent =>
    simp only [apply, withTask]
    split
    · split
      · exact .refl _
      · exact s.reaches_report _ percent
    · exact .refl _
  | endTask ticket result =>
    simp only [apply, withTask]
    split
    · split
      · exact .refl _
      · exact s.reaches_endTask _ _ result
    · exact .refl _
  | maintain =>
    simp only [apply]
    split
    · split
      · exact s.reaches_maintain _
      · exact .refl _
    · exact .refl _
  | _ => exact .of_eq (s.keepsRecords_apply rfl).ledger

theorem reaches_run (s : State) (moves : List Move) : s.ledger.Reaches (s.run moves).ledger := by
  induction moves generalizing s with
  | nil => exact .refl _
  | cons move rest ih => exact (s.reaches_apply move).trans (ih (s.apply move))

end State

variable {b : Blueprint} {around : Surroundings} {t : Timeline}

-- All that an engine ever has on record comes of an empty ledger.
theorem Blueprint.reaches_of_build (hbuild : b.build around = .ok t) (moves : List Move) :
    Ledger.empty.Reaches (t.state.run moves).ledger := by
  have hrun := t.state.reaches_run moves
  rwa [state_of_build hbuild] at hrun ⊢

-- No matter what an engine is asked for, there are never two records of one job.
theorem Blueprint.distinct_of_build (hbuild : b.build around = .ok t) (moves : List Move) :
    (t.state.run moves).ledger.Distinct :=
  (reaches_of_build hbuild moves).distinct Ledger.distinct_empty

end Engine

end Foreman
