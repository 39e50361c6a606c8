import Foreman.Engine.Threads
import Foreman.Proofs.Engine.Shape

namespace Foreman.Engine

open State (Sequel)

variable {s : State} {move : Move} {ticket tag : Nat} {task : Task}

namespace Threads

theorem run_cons (t : Threads) (step : Step) (steps : List Step) :
    t.run (step :: steps) = (t.apply step).run steps := rfl

-- Where nothing is half done there is nothing to go on with.
theorem run_goOn (s : State) (ticket count : Nat) :
    (ofState s).run (List.replicate count (.goOn ticket)) = ofState s := by
  induction count with
  | zero => rfl
  | succ count ih => exact ih

theorem run_proceed (s : State) (tag count : Nat) :
    (ofState s).run (List.replicate count (.proceed tag)) = ofState s := by
  induction count with
  | zero => rfl
  | succ count ih => exact ih

-- Undisturbed, an attempt that is over is brought to its end in four steps.
theorem run_tail (s : State) (ticket attempt : Nat) (job : JobId) (sequel : Sequel) :
    (⟨s, [⟨ticket, job, attempt, .slot sequel⟩], []⟩ : Threads).run
        (List.replicate 4 (.goOn ticket)) =
      let (outcome, s) := (s.freeSlot job).followUp job sequel
      ofState ((s.book job attempt outcome).dropTask ticket) := by
  simp [run, List.replicate, apply, tail?, goOn, setTail, dropTail, withState, ofState, State.book]

theorem run_beginTask (s : State) (ticket : Nat) :
    (ofState s).run (Move.steps (.beginTask ticket)) = ofState (s.apply (.beginTask ticket)) := by
  rw [Move.steps, run_cons]
  cases htask : s.task? ticket with
  | none =>
    have hstep : (ofState s).apply (.begin ticket) = ofState s := by
      simp [apply, task?, tail?, ofState, htask]
    rw [hstep, run_goOn]
    simp only [State.apply, State.withTask, htask]
  | some task =>
    obtain ⟨-, rfl⟩ := State.task?_mem htask
    simp only [State.apply, State.withTask, htask]
    cases hstage : task.stage with
    | running before =>
      have hstep : (ofState s).apply (.begin task.ticket) = ofState s := by
        simp [apply, task?, tail?, ofState, htask, hstage]
      rw [hstep, run_goOn]
    | starting =>
      have hstep : (ofState s).apply (.begin task.ticket) = (ofState s).begin task := by
        simp [apply, task?, tail?, ofState, htask, hstage]
      rw [hstep, begin, State.beginTask]
      dsimp only [ofState]
      cases s.ledger.startAttempt task.job s.now with
      | ok started => exact run_goOn _ task.ticket 4
      | error fault => exact run_tail _ task.ticket 0 task.job (.done .skipped)

theorem run_endTask (s : State) (ticket : Nat) (result : Except Failure Artifact) :
    (ofState s).run (Move.steps (.endTask ticket result)) =
      ofState (s.apply (.endTask ticket result)) := by
  rw [Move.steps, run_cons]
  cases htask : s.task? ticket with
  | none =>
    have hstep : (ofState s).apply (.settle ticket result) = ofState s := by
      simp [apply, task?, tail?, ofState, htask]
    rw [hstep, run_goOn]
    simp only [State.apply, State.withTask, htask]
  | some task =>
    obtain ⟨-, rfl⟩ := State.task?_mem htask
    simp only [State.apply, State.withTask, htask]
    cases hstage : task.stage with
    | starting =>
      have hstep : (ofState s).apply (.settle task.ticket result) = ofState s := by
        simp [apply, task?, tail?, ofState, htask, hstage]
      rw [hstep, run_goOn]
    | running job =>
      have hstep : (ofState s).apply (.settle task.ticket result) =
          (ofState s).settle task job result := by
        simp [apply, task?, tail?, ofState, htask, hstage]
      rw [hstep]
      exact run_tail _ task.ticket job.attempt task.job _

-- A request that is refused leaves nothing behind if the job is new. Otherwise it just ends.
theorem run_refuse (s : State) (request : Request) (count : Nat) :
    ((⟨s, [], [request]⟩ : Threads).refuse request).run
        (List.replicate (request.isNew.toNat + count) (.proceed request.tag)) =
      ofState (if request.isNew then s.forget request.job else s) := by
  cases hnew : request.isNew with
  | false =>
    have hgone : (⟨s, [], [request]⟩ : Threads).refuse request = ofState s := by
      simp [refuse, hnew, dropRequest, ofState]
    rw [hgone, run_proceed]
    rfl
  | true =>
    have hundone : ((⟨s, [], [request]⟩ : Threads).refuse request).apply (.proceed request.tag) =
        ofState (s.forget request.job) := by
      simp [refuse, hnew, setRequest, apply, request?, proceed, withState, dropRequest, ofState]
    rw [Bool.toNat_true, Nat.add_comm, List.replicate_succ, run_cons, hundone, run_proceed]
    rfl

theorem apply_proceed (s : State) (request : Request) :
    (⟨s, [], [request]⟩ : Threads).apply (.proceed request.tag) =
      (⟨s, [], [request]⟩ : Threads).proceed request := by
  simp [apply, request?]

theorem run_filed (s : State) (request : Request) (hfiled : request.filing = .filed) :
    (⟨s, [], [request]⟩ : Threads).run
        (List.replicate (request.isNew.toNat + 1) (.proceed request.tag)) =
      match s.queue.enqueue s.gate request.job request.priority s.now with
      | .ok (_, queue) => ofState { s with queue := queue }
      | .error _ => ofState (if request.isNew then s.forget request.job else s) := by
  rw [List.replicate_succ, run_cons, apply_proceed, proceed]
  simp only [hfiled]
  cases s.queue.enqueue s.gate request.job request.priority s.now with
  | error fault => exact run_refuse s request 0
  | ok queued =>
    have hgone : ((⟨s, [], [request]⟩ : Threads).withState
        { s with queue := queued.2 }).dropRequest request.tag =
          ofState { s with queue := queued.2 } := by
      simp [withState, dropRequest, ofState]
    dsimp only
    rw [hgone, run_proceed]

-- Undisturbed, a request does the same as if it were made in a single step.
theorem run_request {job : Job} {id : JobId} (hjob : s.ledger.get? id = some job)
    (hpending : job.status = .pending) (tag : Nat) (priority : Int) (isNew : Bool) :
    (ofState s).run (.look tag id priority isNew ::
        List.replicate (isNew.toNat + 2) (.proceed tag)) =
      match s.enqueue id priority with
      | (.ok _, s) => ofState s
      | (.error _, s) => ofState (if isNew then s.forget id else s) := by
  have hlook : (ofState s).apply (.look tag id priority isNew) =
      ⟨s, [], [⟨tag, id, priority, isNew, .looked⟩]⟩ := by
    simp [apply, request?, ofState, look, hjob, hpending]
  rw [run_cons, hlook, List.replicate_succ, run_cons,
    apply_proceed s ⟨tag, id, priority, isNew, .looked⟩, proceed]
  simp only [State.enqueue, hjob, if_pos hpending]
  cases s.ledger.setPriority id priority with
  | error fault => exact run_refuse s ⟨tag, id, priority, isNew, .looked⟩ 1
  | ok filed =>
    have hfiled : ((⟨s, [], [⟨tag, id, priority, isNew, .looked⟩]⟩ : Threads).withState
        { s with ledger := filed.2 }).setRequest tag .filed =
          ⟨{ s with ledger := filed.2 }, [], [⟨tag, id, priority, isNew, .filed⟩]⟩ := by
      simp [withState, setRequest]
    dsimp only
    rw [hfiled, run_filed _ ⟨tag, id, priority, isNew, .filed⟩ rfl]
    dsimp only
    split
    · rename_i hok
      rw [hok]
    · rename_i herror
      rw [herror]

theorem run_enqueue (s : State) (id : JobId) (priority : Int) :
    (ofState s).run (Move.steps (.enqueue id priority)) =
      ofState (s.apply (.enqueue id priority)) := by
  cases hjob : s.ledger.get? id with
  | none =>
    have hlook : (ofState s).apply (.look 0 id priority false) = ofState s := by
      simp [apply, request?, ofState, look, hjob]
    rw [Move.steps, run_cons, hlook, run_proceed, State.apply, State.enqueue]
    simp only [hjob]
  | some job =>
    by_cases hpending : job.status = .pending
    · rw [Move.steps, State.apply]
      refine (run_request hjob hpending 0 priority false).trans ?_
      split <;> simp_all
    · have hlook : (ofState s).apply (.look 0 id priority false) = ofState s := by
        simp [apply, request?, ofState, look, hjob, hpending]
      rw [Move.steps, run_cons, hlook, run_proceed, State.apply, State.enqueue]
      simp only [hjob, if_neg hpending]

theorem run_submit (s : State) (id : JobId) (params : Params) (priority : Int)
    (maxRetries : Option Nat) :
    (ofState s).run (Move.steps (.submit id params priority maxRetries)) =
      ofState (s.apply (.submit id params priority maxRetries)) := by
  have hjob : (s.addJob id params maxRetries).2.ledger.get? id = _ :=
    (s.ledger.create_touches id params (maxRetries.getD s.config.maxRetries) s.now).2
  have hcreate : (ofState s).apply (.whole (.create id params maxRetries)) =
      ofState (s.addJob id params maxRetries).2 := rfl
  rw [Move.steps, run_cons, hcreate, State.apply, State.submit]
  refine (run_request hjob rfl 0 priority true).trans ?_
  have hname : (s.addJob id params maxRetries).1.id = id := rfl
  dsimp only
  rw [hname]
  rcases (s.addJob id params maxRetries).2.enqueue id priority with ⟨fault | position, s'⟩
  · rfl
  · dsimp only
    split <;> rfl

-- What is done on one thread is what the engine does move by move.
theorem run_steps (s : State) (move : Move) :
    (ofState s).run move.steps = ofState (s.apply move) := by
  cases move with
  | beginTask ticket => exact run_beginTask s ticket
  | endTask ticket result => exact run_endTask s ticket result
  | enqueue id priority => exact run_enqueue s id priority
  | submit id params priority maxRetries => exact run_submit s id params priority maxRetries
  | _ => rfl

theorem onOneThread_eq (s : State) (moves : List Move) :
    onOneThread s moves = ofState (s.run moves) := by
  induction moves generalizing s with
  | nil => rfl
  | cons move moves ih =>
    rw [onOneThread, List.flatMap_cons, run_append, run_steps]
    exact ih (s.apply move)

-- Things go wrong between the steps of an attempt. The engine is started anew while this one is
-- made. It has queued its job again, and is to be counted and reported, when the queue is looked at
-- on another thread and the next attempt begins.
def overlap : List Step :=
  (Move.submit ⟨1⟩ [] 5 (some 1)).steps ++
    [.whole .start, .whole .poll, .begin 0, .whole .stop, .whole .start,
      .settle 0 (.error (.retriable "busy")), .goOn 0, .goOn 0, .whole .poll, .begin 1]

-- This one has given its slot back, and its job is to be queued again, when someone runs the job
-- directly on another thread.
def usurpation : List Step :=
  (Move.submit ⟨1⟩ [] 5 (some 1)).steps ++
    [.whole .start, .whole .poll, .begin 0, .settle 0 (.error (.retriable "busy")), .goOn 0,
      .whole (.arrive ⟨1⟩ .run 100), .whole (.firstLook 1), .begin 2]

-- The direct run brings the job to its end, and then the first attempt queues it again.
def relapse : List Step :=
  usurpation ++ (Move.endTask 2 (.ok ⟨"out", 0, 0.0⟩)).steps ++ [.goOn 0, .goOn 0, .goOn 0]

end Threads

end Foreman.Engine
