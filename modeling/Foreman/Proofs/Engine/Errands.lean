import Foreman.Proofs.Engine.Deeds
import Foreman.Proofs.Engine.Queueing
import Foreman.Proofs.Engine.Site
import Foreman.Proofs.Queue.Service

namespace Foreman

namespace Desk

variable {α : Type} {d : Discipline α}

theorem run_append (desk : Desk α) (first second : List Errand) :
    desk.run d (first ++ second) =
      ((desk.run d first).1 ++ ((desk.run d first).2.run d second).1,
        ((desk.run d first).2.run d second).2) := by
  induction first generalizing desk with
  | nil => rfl
  | cons errand first ih => simp only [List.cons_append, run, ih]

-- One desk comes of another by errands.
def Reaches (desk next : Desk Queue) : Prop :=
  ∃ errands, next = (desk.run Queue.discipline errands).2

namespace Reaches

variable {desk next last : Desk Queue} {job : JobId} {queue : Queue} {gate : Gate} {now : Nat}

theorem refl (desk : Desk Queue) : desk.Reaches desk := ⟨[], rfl⟩

theorem of_eq (h : next = desk) : desk.Reaches next := h ▸ refl desk

theorem trans (h : desk.Reaches next) (h' : next.Reaches last) : desk.Reaches last := by
  obtain ⟨first, rfl⟩ := h
  obtain ⟨second, rfl⟩ := h'
  exact ⟨first ++ second, by rw [run_append]⟩

theorem enqueued {position : Nat} {priority : Int}
    (h : desk.queue.enqueue desk.gate job priority desk.now = .ok (position, queue)) :
    desk.Reaches { desk with queue := queue } :=
  ⟨[.enqueue job priority], by simp [run, serve, Queue.discipline, h]⟩

theorem dequeued (h : desk.queue.dequeue? desk.gate = some (job, queue, gate)) :
    desk.Reaches { desk with queue := queue, gate := gate } :=
  ⟨[.dequeue], by simp [run, serve, Queue.discipline, h]⟩

theorem erased (h : desk.queue.erase? job = some queue) :
    desk.Reaches { desk with queue := queue } :=
  ⟨[.erase job], by simp [run, serve, Queue.discipline, h]⟩

theorem acquired (h : desk.gate.acquire? job = some gate) :
    desk.Reaches { desk with gate := gate } :=
  ⟨[.acquire job], by simp [run, serve, h]⟩

theorem released (h : desk.gate.release? job = some gate) :
    desk.Reaches { desk with gate := gate } :=
  ⟨[.release job], by simp [run, serve, h]⟩

theorem later (h : desk.now ≤ now) : desk.Reaches { desk with now := now } :=
  ⟨[.wait (now - desk.now)], by simp [run, serve, Nat.add_sub_cancel' h]⟩

end Reaches

end Desk

namespace Engine

namespace State

variable {s : State} {move : Move}

-- The queue of an engine, the gate beside it, and the clock.
def desk (s : State) : Desk Queue := ⟨s.queue, s.gate, s.now⟩

theorem desk_settleResult (s : State) (job : Job) (requeues : Bool)
    (result : Except Failure Artifact) : (s.settleResult job requeues result).2.desk = s.desk := by
  obtain ⟨ledger, registry, heq⟩ := s.exists_settleResult_eq job requeues result
  rw [heq]
  rfl

theorem goes_release {line : Line} {job : JobId} (h : s.line.release? job = some line) :
    s.desk.Reaches ({ s with line := line } : State).desk :=
  .released (Line.release?_gate h)

theorem goes_freeSlot (s : State) (job : JobId) : s.desk.Reaches (s.freeSlot job).desk := by
  unfold freeSlot
  split
  · exact goes_release ‹_›
  · exact .refl _

theorem goes_returnSlot (s : State) (id : JobId) : s.desk.Reaches (s.returnSlot id).2.desk := by
  unfold returnSlot
  split
  · exact .refl _
  · exact goes_release ‹_›

theorem goes_enqueue (s : State) (id : JobId) (priority : Int) :
    s.desk.Reaches (s.enqueue id priority).2.desk := by
  unfold enqueue
  split
  · exact .refl _
  · split
    · split
      · exact .refl _
      · simp only
        split
        · exact .refl _
        · rename_i henqueue
          exact .enqueued henqueue
    · exact .refl _

theorem goes_submit (s : State) (id : JobId) (params : Params) (priority : Int)
    (maxRetries : Option Nat) :
    s.desk.Reaches (s.submit id params priority maxRetries).2.desk := by
  have hasked : s.desk.Reaches _ := (s.addJob id params maxRetries).2.goes_enqueue id priority
  rw [submit_eq]
  rcases henqueue : (s.addJob id params maxRetries).2.enqueue id priority with ⟨_ | position, next⟩
  · rw [henqueue] at hasked
    exact hasked
  · rw [henqueue] at hasked
    exact hasked

theorem goes_withdrawJob (s : State) (id : JobId) :
    s.desk.Reaches (s.withdrawJob id).2.desk := by
  unfold withdrawJob
  split
  · exact .refl _
  · rename_i herase
    exact .erased herase

theorem goes_takeNext {job : JobId} {s' : State} (h : s.takeNext = some (job, s')) :
    s.desk.Reaches s'.desk := by
  unfold takeNext at h
  split at h
  · cases h
  · rename_i hdequeue
    cases h
    exact .dequeued hdequeue

theorem goes_takeJob (s : State) : s.desk.Reaches s.takeJob.2.desk := by
  unfold takeJob
  split
  · exact .refl _
  · exact goes_takeNext ‹_›

theorem goes_burstWithin (fuel : Nat) (s : State) :
    s.desk.Reaches (burstWithin fuel s).desk := by
  induction fuel generalizing s with
  | zero => exact .refl _
  | succ fuel ih =>
    unfold burstWithin
    split
    · exact .refl _
    · rename_i job next htaken
      exact (goes_takeNext htaken).trans (ih (next.spawn job true))

theorem goes_followUp (s : State) (job : JobId) (sequel : Sequel) :
    s.desk.Reaches (s.followUp job sequel).2.desk := by
  cases sequel with
  | done outcome => exact .refl _
  | requeue priority reason =>
    simp only [followUp, requeue]
    split
    · rename_i henqueue
      exact .enqueued henqueue
    · rename_i fault _
      obtain ⟨ledger, heq⟩ := s.exists_fail_eq job
        (reason ++ "; retry could not be scheduled: " ++ fault.message)
      rw [heq]
      exact .refl _

theorem goes_endTask (s : State) (task : Task) (job : Job) (result : Except Failure Artifact) :
    s.desk.Reaches (s.endTask task job result).desk := by
  have hsettled := s.desk_settleResult job task.requeues result
  rcases hsettle : s.settleResult job task.requeues result with ⟨sequel, settled⟩
  rw [hsettle] at hsettled
  simp only [endTask, hsettle]
  rw [← hsettled]
  exact (settled.goes_freeSlot task.job).trans
    ((settled.freeSlot task.job).goes_followUp task.job sequel)

theorem goes_beginTask (s : State) (task : Task) : s.desk.Reaches (s.beginTask task).desk := by
  simp only [beginTask]
  split
  · exact .refl _
  · exact goes_freeSlot { s with tally := s.tally.begin } task.job

theorem desk_report (s : State) (job : JobId) (percent : Nat) :
    (s.report job percent).desk = s.desk := by
  unfold report
  split
  · rfl
  · rfl

-- Someone who runs a job directly takes it out of the queue.
theorem goes_hear (s : State) (caller : Caller) (verdict : Verdict) :
    s.desk.Reaches (s.hear caller verdict).desk := by
  cases verdict with
  | granted =>
    simp only [hear]
    split
    · exact .refl _
    · cases herase : s.queue.erase? caller.job with
      | none => exact .refl _
      | some queue => exact .erased herase
  | refused => exact .refl _
  | waits => exact .refl _
  | panics => exact .refl _

-- A look at the gate takes a slot, or leaves the gate as it is.
theorem goes_look {line : Line} {job : JobId} {verdict : Verdict}
    (h : (verdict = .granted ∧ s.line.gate.acquire? job = some line.gate) ∨
      (verdict ≠ .granted ∧ line.gate = s.line.gate)) :
    s.desk.Reaches ({ s with line := line } : State).desk := by
  rcases h with ⟨-, hacquire⟩ | ⟨-, hsame⟩
  · exact .acquired hacquire
  · exact .of_eq (congrArg (Desk.mk s.queue · s.now) hsame)

theorem goes_firstLook (s : State) (caller : Caller) :
    s.desk.Reaches (s.firstLook caller).desk := by
  unfold firstLook
  split
  · exact .refl _
  · exact (goes_look (Line.lookFirst_gate rfl)).trans (goes_hear _ caller _)

theorem goes_nextLook (s : State) : s.desk.Reaches s.nextLook.desk := by
  unfold nextLook
  split
  · exact .refl _
  · rename_i call line verdict hresume
    have hlooked : s.desk.Reaches ({ s with line := line } : State).desk :=
      goes_look (Line.lookAgain_gate (Line.resume_cases hresume).2)
    simp only
    split
    · exact hlooked
    · exact hlooked.trans (goes_hear _ _ verdict)

theorem goes_pass (s : State) (now : Nat) : s.desk.Reaches (s.pass now).desk := by
  unfold pass
  split
  · rename_i hpass
    obtain ⟨callers, heq, -⟩ := exists_expireCallers_eq { s with now := now }
    rw [heq]
    exact .later hpass.1
  · exact .refl _

theorem desk_abandon (s : State) (tag : Nat) : (s.abandon tag).desk = s.desk := by
  unfold abandon
  split
  · rfl
  · split
    · rfl
    · rfl
    · exact congrArg (Desk.mk s.queue · s.now) (Line.withdraw_gate s.line tag)

theorem desk_maintain (s : State) (upkeep : Upkeep) : (s.maintain upkeep).desk = s.desk := by
  obtain ⟨limiter, files, next, heq⟩ := exists_maintain_eq s upkeep
  rw [heq]
  rfl

theorem desk_sweep (s : State) (dryRun : Bool) : (s.apply (.sweep dryRun)).desk = s.desk := by
  obtain heq | ⟨-, files, heq⟩ := s.apply_sweep_cases dryRun
  · rw [heq]
  · rw [heq]
    rfl

theorem desk_protect (s : State) (id : JobId) (path : String) :
    (s.protect id path).2.desk = s.desk := by
  unfold protect
  split
  · rfl
  · rfl

-- Whatever a move does to the queue and the gate beside it, it does by errands.
theorem goes_apply (s : State) (move : Move) : s.desk.Reaches (s.apply move).desk := by
  cases move with
  | create id params maxRetries => exact .refl _
  | submit id params priority maxRetries => exact s.goes_submit id params priority maxRetries
  | enqueue id priority => exact s.goes_enqueue id priority
  | withdrawJob id => exact s.goes_withdrawJob id
  | takeJob => exact s.goes_takeJob
  | returnSlot id => exact s.goes_returnSlot id
  | askRate caller category => exact .refl _
  | protect id path => exact .of_eq (s.desk_protect id path)
  | unprotect id => exact .refl _
  | evict => exact .refl _
  | sweep dryRun => exact .of_eq (s.desk_sweep dryRun)
  | start => exact .refl _
  | stop => exact .refl _
  | arrive job aim timeout => exact .refl _
  | abandon tag => exact .of_eq (s.desk_abandon tag)
  | firstLook tag =>
    simp only [apply, withCaller]
    split
    · split
      · exact s.goes_firstLook _
      · exact .refl _
    · exact .refl _
  | nextLook => exact s.goes_nextLook
  | collect tag =>
    simp only [apply, withCaller]
    split
    · split
      · split
        · exact .refl _
        · exact .refl _
      · exact .refl _
    · exact .refl _
  | beginTask ticket =>
    simp only [apply, withTask]
    split
    · split
      · exact s.goes_beginTask _
      · exact .refl _
    · exact .refl _
  | report ticket percent =>
    simp only [apply, withTask]
    split
    · split
      · exact .refl _
      · exact .of_eq (s.desk_report _ percent)
    · exact .refl _
  | endTask ticket result =>
    simp only [apply, withTask]
    split
    · split
      · exact .refl _
      · exact s.goes_endTask _ _ result
    · exact .refl _
  | poll =>
    simp only [apply]
    split
    · split
      · exact goes_burstWithin s.queue.length s
      · exact .refl _
    · exact .refl _
  | maintain =>
    simp only [apply]
    split
    · split
      · exact .of_eq (s.desk_maintain _)
      · exact .refl _
    · exact .refl _
  | pass now => exact s.goes_pass now

end State

namespace Site

variable {s : Site}

-- What becomes of an engine in a turn of anyone: nothing, or what a move makes of it, or what is
-- done by one who polls or by one who does the upkeep.
theorem Sound.state_act (h : s.Sound) (act : Act) :
    (s.act act).state = s.state ∨
    (∃ move, (s.act act).state = s.state.apply move) ∨
    (s.act act).state = s.state.burst ∨
    ∃ upkeep, (s.act act).state = (s.state.maintain upkeep).timed none none := by
  rcases h.loans_act act with heq | ⟨move, -, -, heq⟩ | ⟨worker, -, -, -, heq⟩ |
    ⟨worker, -, -, heq⟩
  · exact .inl (congrArg Loans.state heq)
  · exact .inr (.inl ⟨move, congrArg Loans.state heq⟩)
  · exact .inr (.inr (.inl (congrArg Loans.state heq)))
  · exact .inr (.inr (.inr ⟨worker.duty, congrArg Loans.state heq⟩))

-- What holds of an engine whatever a move makes of it, and whoever has a turn, holds all along.
theorem Sound.carries (p : State → Prop) (h : s.Sound) (hp : p s.state)
    (happly : ∀ state move, p state → p (state.apply move))
    (hburst : ∀ state, p state → p state.burst)
    (hmaintain : ∀ state upkeep, p state → p ((state.maintain upkeep).timed none none))
    (acts : List Act) : p (s.run acts).state := by
  induction acts generalizing s with
  | nil => exact hp
  | cons act acts ih =>
    refine ih (h.act act) ?_
    rcases h.state_act act with heq | ⟨move, heq⟩ | heq | ⟨upkeep, heq⟩
    · exact heq ▸ hp
    · exact heq ▸ happly _ move hp
    · exact heq ▸ hburst _ hp
    · exact heq ▸ hmaintain _ upkeep hp

theorem Sound.goes_run (h : s.Sound) (acts : List Act) :
    s.state.desk.Reaches (s.run acts).state.desk := by
  refine carries (fun state => s.state.desk.Reaches state.desk) h (.refl _)
    (fun state move hgoes => hgoes.trans (state.goes_apply move)) (fun state hgoes => ?_)
    (fun state upkeep hgoes => ?_) acts
  · exact hgoes.trans (State.goes_burstWithin state.queue.length state)
  · exact hgoes.trans (.of_eq (state.desk_maintain upkeep))

theorem Sound.reaches_run (h : s.Sound) (acts : List Act) :
    s.state.ledger.Reaches (s.run acts).state.ledger := by
  refine carries (fun state => s.state.ledger.Reaches state.ledger) h (.refl _)
    (fun state move hreaches => hreaches.trans (state.reaches_apply move))
    (fun state hreaches => ?_) (fun state upkeep hreaches => ?_) acts
  · exact hreaches.trans
      (.of_eq (State.keepsRecords_burstWithin state.queue.length state).ledger)
  · exact hreaches.trans (state.reaches_maintain upkeep)

end Site

variable {b : Blueprint} {around : Surroundings} {t : Timeline}

namespace Blueprint

theorem sound_of_build (hbuild : b.build around = .ok t) : (Site.ofState t.state).Sound := by
  have hstate := state_of_build hbuild
  exact Site.sound_ofState (hstate ▸ rfl) (hstate ▸ rfl)

-- The desk of a new engine, with the queue as a list of entries or as a heap with an index.

def listDesk (b : Blueprint) (around : Surroundings) : Desk Queue :=
  ⟨.ofCapacity b.config.queueCapacity, .ofCapacity (b.slots around), around.now⟩

def heapDesk (b : Blueprint) (around : Surroundings) : Desk IndexedQueue :=
  ⟨.ofCapacity b.config.queueCapacity, .ofCapacity (b.slots around), around.now⟩

theorem goes_of_build (hbuild : b.build around = .ok t) (acts : List Act) :
    (b.listDesk around).Reaches ((Site.ofState t.state).run acts).state.desk := by
  have hgoes := (sound_of_build hbuild).goes_run acts
  have hstart : (Site.ofState t.state).state.desk = b.listDesk around :=
    congrArg State.desk (state_of_build hbuild)
  rwa [hstart] at hgoes

theorem ledger_of_build (hbuild : b.build around = .ok t) (acts : List Act) :
    Ledger.empty.Reaches ((Site.ofState t.state).run acts).state.ledger := by
  have hreaches := (sound_of_build hbuild).reaches_run acts
  have hstart : (Site.ofState t.state).state.ledger = Ledger.empty :=
    congrArg State.ledger (state_of_build hbuild)
  rwa [hstart] at hreaches

-- The queue of an engine is in order at any time.
theorem neat_of_build (hbuild : b.build around = .ok t) (acts : List Act) :
    ((Site.ofState t.state).run acts).state.queue.Neat
      ((Site.ofState t.state).run acts).state.now := by
  obtain ⟨errands, heq⟩ := goes_of_build hbuild acts
  have hstart : (b.listDesk around).queue.Neat (b.listDesk around).now :=
    Queue.neat_ofCapacity b.config.queueCapacity around.now
  have hneat := Desk.neat_run hstart errands
  rwa [← heq] at hneat

-- A heap with an index at which the same was done is like the queue of the engine.
theorem exists_alike_of_build (hbuild : b.build around = .ok t) (acts : List Act) :
    ∃ errands, Discipline.Alike IndexedQueue.Indexes
      ((b.heapDesk around).run IndexedQueue.discipline errands).2
      ((Site.ofState t.state).run acts).state.desk := by
  obtain ⟨errands, heq⟩ := goes_of_build hbuild acts
  refine ⟨errands, ?_⟩
  rw [heq]
  exact (IndexedQueue.simulates_queue.run
    (.init _ (IndexedQueue.indexes_ofCapacity b.config.queueCapacity around.now)) errands).2

end Blueprint

end Engine

end Foreman
