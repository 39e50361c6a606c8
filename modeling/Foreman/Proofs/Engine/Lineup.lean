import Foreman.Proofs.Engine.Aside
import Foreman.Proofs.Engine.Custody
import Foreman.Proofs.Engine.Queueing

namespace Foreman

-- A queue that has the room of another one, and is in order if that one was.
structure Queue.Keeps (q : Queue) (now : Nat) (q' : Queue) : Prop where
  capacity : q'.capacity = q.capacity
  ordered : q.Ordered now → q'.Ordered now

namespace Queue.Keeps

variable {q q' q'' : Queue} {now : Nat}

theorem refl (q : Queue) (now : Nat) : q.Keeps now q := ⟨rfl, id⟩

theorem of_eq (h : q' = q) : q.Keeps now q' := h ▸ refl q now

theorem trans (h : q.Keeps now q') (h' : q'.Keeps now q'') : q.Keeps now q'' :=
  ⟨h'.capacity.trans h.capacity, fun hordered => h'.ordered (h.ordered hordered)⟩

theorem without (q : Queue) (now : Nat) (job : JobId) : q.Keeps now (q.without job) :=
  ⟨rfl, fun hordered => hordered.without job⟩

theorem joined {job : JobId} (hout : job ∉ q.order) (hroom : q.length < q.capacity)
    (priority : Int) : q.Keeps now (q.joined job priority now) :=
  ⟨rfl, fun hordered => hordered.joined hout hroom priority⟩

end Queue.Keeps

namespace Engine

namespace State

variable {s : State} {move : Move} {rules : Config}

theorem keeps_enqueue (s : State) (id : JobId) (priority : Int) :
    s.queue.Keeps s.now (s.enqueue id priority).2.queue := by
  obtain ⟨fault, heq, -⟩ | ⟨job, ledger, -, -, hcases⟩ := enqueue_cases s id priority
  · rw [heq]
    exact .refl _ _
  · obtain ⟨fault, heq, -⟩ | ⟨position, heq, -⟩ | ⟨position, heq, hout, -, hroom⟩ := hcases
    · rw [heq]
      exact .refl _ _
    · rw [heq]
      exact .refl _ _
    · rw [heq]
      exact .joined hout hroom priority

theorem keeps_submit (s : State) (id : JobId) (params : Params) (priority : Int)
    (maxRetries : Option Nat) :
    s.queue.Keeps s.now (s.submit id params priority maxRetries).2.queue := by
  have hasked : s.queue.Keeps s.now _ := (s.addJob id params maxRetries).2.keeps_enqueue id priority
  rw [submit_eq]
  rcases henqueue : (s.addJob id params maxRetries).2.enqueue id priority with ⟨_ | position, next⟩
  · rw [henqueue] at hasked
    exact hasked
  · rw [henqueue] at hasked
    exact hasked

theorem keeps_withdrawJob (s : State) (id : JobId) :
    s.queue.Keeps s.now (s.withdrawJob id).2.queue := by
  unfold withdrawJob
  split
  · exact .refl _ _
  · rename_i queue herase
    obtain ⟨-, rfl⟩ := Queue.erase?_eq_some herase
    exact .without _ _ id

theorem keeps_takeJob (s : State) : s.queue.Keeps s.now s.takeJob.2.queue := by
  unfold takeJob
  obtain hnone | ⟨job, queue, gate, hsome, -, -, rfl⟩ := takeNext_cases s
  · rw [hnone]
    exact .refl _ _
  · rw [hsome]
    exact .without _ _ job

theorem keeps_burstWithin (fuel : Nat) (s : State) :
    s.queue.Keeps s.now (burstWithin fuel s).queue := by
  induction fuel generalizing s with
  | zero => exact .refl _ _
  | succ fuel ih =>
    unfold burstWithin
    obtain hnone | ⟨job, queue, gate, hsome, -, -, rfl⟩ := takeNext_cases s
    · rw [hnone]
      exact .refl _ _
    · rw [hsome]
      exact (Queue.Keeps.without _ _ job).trans (ih (({ s with
        queue := s.queue.without job, line := { s.line with gate := gate } } : State).spawn job true))

theorem keeps_followUp (s : State) (job : JobId) (sequel : Sequel) :
    s.queue.Keeps s.now (s.followUp job sequel).2.queue := by
  cases sequel with
  | done outcome => exact .refl _ _
  | requeue priority reason =>
    simp only [followUp, requeue]
    rcases s.queue.enqueue_cases s.gate job priority s.now with
      ⟨-, position, heq⟩ | ⟨-, -, heq⟩ | ⟨-, -, -, heq⟩ | ⟨hout, -, hroom, position, heq⟩
    · rw [heq]
      exact .refl _ _
    · rw [heq]
      exact .of_eq (queue_fail s _ _)
    · rw [heq]
      exact .of_eq (queue_fail s _ _)
    · rw [heq]
      exact .joined hout hroom priority

theorem keeps_endTask (s : State) (task : Task) (job : Job) (result : Except Failure Artifact) :
    s.queue.Keeps s.now (s.endTask task job result).queue := by
  have hqueue := s.queue_settleResult job task.requeues result
  have hnow := (s.aside_settleResult job task.requeues result).now
  rcases hsettle : s.settleResult job task.requeues result with ⟨sequel, settled⟩
  rw [hsettle] at hqueue hnow
  have hfollowed := (settled.freeSlot task.job).keeps_followUp task.job sequel
  rw [queue_freeSlot, (settled.aside_freeSlot task.job).now, hqueue, hnow] at hfollowed
  simp only [endTask, hsettle, dropTask, book]
  exact hfollowed

-- Someone who runs a job directly takes it out of the queue.
theorem keeps_hear (s : State) (caller : Caller) (verdict : Verdict) :
    s.queue.Keeps s.now (s.hear caller verdict).queue := by
  cases verdict with
  | granted =>
    simp only [hear]
    split
    · exact .refl _ _
    · rw [Queue.erase?_getD]
      exact .without _ _ caller.job
  | refused => exact .refl _ _
  | waits => exact .refl _ _
  | panics => exact .refl _ _

theorem keeps_firstLook (s : State) (caller : Caller) :
    s.queue.Keeps s.now (s.firstLook caller).queue := by
  unfold firstLook
  split
  · exact .refl _ _
  · exact keeps_hear
      { s with line := (s.line.lookFirst s.now ⟨caller.tag, caller.job, s.now + caller.timeout⟩).1 }
      caller (s.line.lookFirst s.now ⟨caller.tag, caller.job, s.now + caller.timeout⟩).2

theorem keeps_nextLook (s : State) : s.queue.Keeps s.now s.nextLook.queue := by
  unfold nextLook
  split
  · exact .refl _ _
  · rename_i line verdict hresume
    simp only
    split
    · exact .refl _ _
    · exact keeps_hear { s with line := line } _ verdict

theorem keeps_apply (s : State) (move : Move) : s.queue.Keeps s.now (s.apply move).queue := by
  cases move with
  | submit id params priority maxRetries => exact s.keeps_submit id params priority maxRetries
  | enqueue id priority => exact s.keeps_enqueue id priority
  | withdrawJob id => exact s.keeps_withdrawJob id
  | takeJob => exact s.keeps_takeJob
  | endTask ticket result =>
    simp only [apply, withTask]
    split
    · split
      · exact .refl _ _
      · exact s.keeps_endTask _ _ result
    · exact .refl _ _
  | firstLook tag =>
    simp only [apply, withCaller]
    split
    · split
      · exact s.keeps_firstLook _
      · exact .refl _ _
    · exact .refl _ _
  | nextLook => exact s.keeps_nextLook
  | poll =>
    simp only [apply]
    split
    · split
      · exact s.keeps_burstWithin s.queue.length
      · exact .refl _ _
    · exact .refl _ _
  | _ => exact .of_eq (queue_apply (by simp) (by simp [Alters, hears?]))

-- The clock of an engine does not go back, and its rules stay what they are.
structure Proceeds (s s' : State) : Prop where
  now : s.now ≤ s'.now
  config : s'.config = s.config

-- The clock and the rules of an engine are what they were.
structure KeepsTime (s s' : State) : Prop where
  now : s'.now = s.now
  config : s'.config = s.config

theorem KeepsTime.proceeds {s' : State} (h : s.KeepsTime s') : s.Proceeds s' :=
  ⟨h.now.ge, h.config⟩

theorem Aside.keepsTime {s' : State} (h : s.Aside s') : s.KeepsTime s' := ⟨h.now, h.config⟩

theorem keepsTime_hear (s : State) (caller : Caller) (verdict : Verdict) :
    s.KeepsTime (s.hear caller verdict) := by
  cases verdict with
  | granted =>
    simp only [hear]
    split
    · exact ⟨rfl, rfl⟩
    · exact ⟨rfl, rfl⟩
  | refused => exact ⟨rfl, rfl⟩
  | waits => exact ⟨rfl, rfl⟩
  | panics => exact ⟨rfl, rfl⟩

-- Nothing but the passing of time moves the clock.
theorem keepsTime_apply (s : State) (move : Move) (h : ∀ now, move ≠ .pass now) :
    s.KeepsTime (s.apply move) := by
  cases move with
  | arrive job aim timeout => exact ⟨rfl, rfl⟩
  | abandon tag =>
    simp only [apply, abandon]
    split
    · exact ⟨rfl, rfl⟩
    · split
      · exact ⟨rfl, rfl⟩
      · exact ⟨rfl, rfl⟩
      · exact ⟨rfl, rfl⟩
  | firstLook tag =>
    simp only [apply, withCaller]
    split
    · split
      · simp only [firstLook]
        split
        · exact ⟨rfl, rfl⟩
        · obtain ⟨hnow, hconfig⟩ := keepsTime_hear { s with line := _ } _ _
          exact ⟨hnow, hconfig⟩
      · exact ⟨rfl, rfl⟩
    · exact ⟨rfl, rfl⟩
  | nextLook =>
    simp only [apply, nextLook]
    split
    · exact ⟨rfl, rfl⟩
    · rename_i line verdict hresume
      split
      · exact ⟨rfl, rfl⟩
      · obtain ⟨hnow, hconfig⟩ := keepsTime_hear { s with line := line } _ verdict
        exact ⟨hnow, hconfig⟩
  | collect tag =>
    simp only [apply, withCaller]
    split
    · split
      · split
        · exact ⟨rfl, rfl⟩
        · exact ⟨rfl, rfl⟩
      · exact ⟨rfl, rfl⟩
    · exact ⟨rfl, rfl⟩
  | pass now => exact absurd rfl (h now)
  | _ => exact (s.aside_apply rfl).keepsTime

theorem proceeds_pass (s : State) (now : Nat) : s.Proceeds (s.pass now) := by
  unfold pass
  split
  · rename_i hpass
    obtain ⟨callers, heq, -⟩ := exists_expireCallers_eq { s with now := now }
    rw [heq]
    exact ⟨hpass.1, rfl⟩
  · exact ⟨le_rfl, rfl⟩

theorem proceeds_apply (s : State) (move : Move) : s.Proceeds (s.apply move) := by
  cases move with
  | pass now => exact s.proceeds_pass now
  | _ => exact (s.keepsTime_apply _ (by simp)).proceeds

-- The queue of an engine at any time.
structure LinedUp (s : State) (rules : Config) : Prop where
  config : s.config = rules
  capacity : s.queue.capacity = rules.queueCapacity
  ordered : s.queue.Ordered s.now

theorem LinedUp.apply (h : s.LinedUp rules) (move : Move) : (s.apply move).LinedUp rules := by
  have hkeeps := s.keeps_apply move
  have hproceeds := s.proceeds_apply move
  exact ⟨hproceeds.config.trans h.config, hkeeps.capacity.trans h.capacity,
    (hkeeps.ordered h.ordered).later hproceeds.now⟩

theorem LinedUp.run (h : s.LinedUp rules) (moves : List Move) : (s.run moves).LinedUp rules := by
  induction moves generalizing s with
  | nil => exact h
  | cons move rest ih => exact ih (h.apply move)

end State

variable {b : Blueprint} {around : Surroundings} {t : Timeline}

theorem Blueprint.linedUp_of_build (hbuild : b.build around = .ok t) (moves : List Move) :
    (t.state.run moves).LinedUp b.config := by
  refine State.LinedUp.run ?_ moves
  rw [state_of_build hbuild]
  exact ⟨rfl, rfl, Queue.ordered_ofCapacity _ _⟩

end Engine

end Foreman
