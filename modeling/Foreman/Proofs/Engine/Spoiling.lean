import Foreman.Proofs.Engine.Timeliness

namespace Foreman.Engine

open State (Sequel)

variable {s : State} {id : JobId}

-- The dispatcher has handed a job out, and the attempt at it is still to begin.
def State.handsOut (s : State) (id : JobId) : Bool :=
  s.tasks.any fun task => task.job == id && task.requeues && !task.stage.isRunning

-- A step spoils what waits if it goes by how a job was before. A job gets into the queue that
-- cannot be tried, or one is failed or forgotten that waits there or has been handed out.
def Threads.spoils (t : Threads) : Step → Bool
  | .goOn ticket => (t.tail? ticket).any fun tail => match tail.rest with
    | .sequel (.requeue priority _) =>
      match t.state.queue.enqueue t.state.gate tail.job priority t.state.now with
      | .ok _ => !t.state.ledger.canStart tail.job
      | .error _ => t.state.handsOut tail.job &&
        (t.state.ledger.get? tail.job).any (fun job => job.status.canBecome .failed)
    | _ => false
  | .proceed tag => (t.request? tag).any fun request => match request.filing with
    | .looked => false
    | .filed =>
      match t.state.queue.enqueue t.state.gate request.job request.priority t.state.now with
      | .ok _ => !t.state.ledger.canStart request.job
      | .error _ => false
    | .refused => (t.state.queue.contains request.job || t.state.handsOut request.job) &&
      (t.state.ledger.get? request.job).any (fun job => job.status = .pending)
  | _ => false

theorem State.handsOut_iff : s.handsOut id = true ↔
    ∃ task ∈ s.tasks, task.job = id ∧ task.requeues = true ∧ task.stage = .starting := by
  have hstarting : ∀ stage : Stage, stage.isRunning = false ↔ stage = .starting := by
    intro stage
    cases stage <;> simp [Stage.isRunning]
  simp only [handsOut, List.any_eq_true, Bool.and_eq_true, beq_iff_eq, Bool.not_eq_true',
    hstarting, and_assoc]

-- A job that cannot be tried has no business in the queue, nor has an attempt at it been handed
-- out.
theorem State.Dispatchable.canStart (h : s.Dispatchable)
    (hwaits : id ∈ s.queue.order ∨ s.handsOut id = true) : s.ledger.canStart id = true := by
  suffices hjob : ∃ job, s.ledger.get? id = some job ∧
      (job.status = .pending ∨ job.status = .retrying) by
    obtain ⟨job, hjob, hstatus⟩ := hjob
    exact Ledger.canStart_iff.mpr ⟨job, hjob, pending_or_retrying_iff.mpr hstatus⟩
  rcases hwaits with hqueued | hhanded
  · exact h.queued id hqueued
  · obtain ⟨task, htask, rfl, hrequeues, hstage⟩ := State.handsOut_iff.mp hhanded
    obtain ⟨job, hjob, hstatus, -⟩ := h.begins task htask hrequeues hstage
    exact ⟨job, hjob, hstatus⟩

namespace Threads

variable {t : Threads} {step : Step}

-- Whoever holds a slot, what waits can be tried.
def Timely (t : Threads) : Prop := (t.state.account []).Timely t.tails

variable {l : ThreadLoans} {slots : Nat} {lent : List JobId} {tail : Tail}

theorem Timely.of_lent (h : t.Timely) (lent : List JobId) :
    (t.state.account lent).Timely t.tails :=
  { h with }

theorem spoils_requeue {priority : Int} {reason : String} (htail : t.tail? tail.ticket = some tail)
    (hrest : tail.rest = .sequel (.requeue priority reason)) : t.spoils (.goOn tail.ticket) =
      match t.state.queue.enqueue t.state.gate tail.job priority t.state.now with
      | .ok _ => !t.state.ledger.canStart tail.job
      | .error _ => t.state.handsOut tail.job &&
        (t.state.ledger.get? tail.job).any (fun job => job.status.canBecome .failed) := by
  simp only [spoils, htail, hrest, Option.any_some]

theorem Timely.moved (h : l.threads.Timely) (hsound : l.threads.Sound slots l.lent) {move : Move}
    (hwhole : move.isWhole = true) (hreturns : l.loans.ReturnsOwn move)
    (hfresh : l.threads.state.NamesAfresh move) :
    (l.threads.withState (l.threads.state.apply move)).Timely := by
  have hheld : ∀ job ∈ l.lent, job ∈ l.threads.state.line.gate.holders := fun job hjob =>
    hsound.shared.holders.mem_iff.mpr (List.mem_append_right _ hjob)
  obtain ⟨hstep, -⟩ :=
    Account.make_step_of_whole (l := l.loans) hwhole hsound.known hsound.distinct hheld hreturns
  obtain ⟨more, htasks, -⟩ := (l.threads.state.keepsAttempts_apply hwhole).tasks
  exact { (h.of_lent l.lent).step hsound.shared hstep ⟨more, htasks.symm⟩ hfresh with }

-- The record of a job may change as long as nobody counts on it.
theorem Timely.touched (h : t.Timely) {id : JobId} {ledger : Ledger}
    (htouches : t.state.ledger.Touches id ledger) (hqueued : id ∉ t.state.queue.order)
    (hhanded : t.state.handsOut id = false) :
    (t.withState { t.state with ledger := ledger }).Timely := by
  refine Account.Timely.touched h htouches hqueued ?_
  rintro task htask hrequeues hstage rfl
  have hout := State.handsOut_iff.mpr ⟨task, htask, rfl, hrequeues, hstage⟩
  cases hhanded.symm.trans hout

theorem Timely.failed (h : t.Timely) {id : JobId} (hqueued : id ∉ t.state.queue.order)
    (hspared : (t.state.handsOut id &&
      (t.state.ledger.get? id).any (fun job => job.status.canBecome .failed)) = false)
    (reason : String) : (t.withState (t.state.fail id reason)).Timely := by
  unfold State.fail
  rcases t.state.ledger.fail_cases id reason t.state.now with
    ⟨job, ledger, hcan, hok, hrewrites⟩ | ⟨fault, herror, -⟩
  · rw [hok]
    rw [hrewrites.before, Option.any_some, hcan, Bool.and_true] at hspared
    exact h.touched hrewrites.toTouches hqueued hspared
  · rw [herror]
    exact h

theorem Timely.requeued (h : t.Timely) (hsound : t.Sound slots lent)
    (htail : t.tail? tail.ticket = some tail) {priority : Int} {reason : String}
    (hrest : tail.rest = .sequel (.requeue priority reason))
    (hspared : t.spoils (.goOn tail.ticket) = false) :
    (t.withState (t.state.requeue tail.job priority reason).2).Timely := by
  rw [spoils_requeue htail hrest] at hspared
  rcases t.state.queue.enqueue_cases t.state.gate tail.job priority t.state.now with
    ⟨-, position, heq⟩ | ⟨hout, -, heq⟩ | ⟨hout, -, -, heq⟩ | ⟨-, hfree, -, position, heq⟩
  · rw [State.requeue_of_ok heq]
    exact h
  · rw [State.requeue_of_error heq]
    rw [heq] at hspared
    exact h.failed hout hspared _
  · rw [State.requeue_of_error heq]
    rw [heq] at hspared
    exact h.failed hout hspared _
  · rw [State.requeue_of_ok heq]
    rw [heq] at hspared
    have hcan : t.state.ledger.canStart tail.job = true := by simpa using hspared
    exact { (h.of_lent lent).joined hsound.shared hcan hfree priority with }

theorem Timely.begun (h : t.Timely) (hsound : t.Sound slots lent) {task : Task} {job : Job}
    {ledger : Ledger} (htask : task ∈ t.state.tasks)
    (hholds : Tail.spares t.tails task.ticket = true)
    (hok : t.state.ledger.startAttempt task.job t.state.now = .ok (job, ledger)) :
    (t.withState { t.state with
      ledger := ledger
      tasks := Account.staged t.state.tasks task.ticket (.running job)
      tally := t.state.tally.begin }).Timely := by
  rcases t.state.ledger.startAttempt_cases task.job t.state.now with
    ⟨before, ledger, -, heq, hrewrites⟩ | ⟨fault, heq, -⟩
  · cases heq.symm.trans hok
    exact { (h.of_lent lent).begun hsound.shared htask hholds hrewrites with }
  · cases heq.symm.trans hok

-- An attempt that is skipped is not one that has been handed out.
theorem Timely.skipped (h : t.Timely) (hsound : t.Sound slots lent) {task : Task} {fault : Fault}
    (htask : task ∈ t.state.tasks)
    (herror : t.state.ledger.startAttempt task.job t.state.now = .error fault) :
    ({ t with
      state := { t.state with tally := t.state.tally.begin }
      tails := t.tails ++ [⟨task.ticket, task.job, 0, .slot (.done .skipped)⟩] } :
        Threads).Timely := by
  have hdirect : task.requeues = true → task.stage ≠ .starting := by
    intro hrequeues hstarting
    have hcan := (Account.Timely.handed h task htask hrequeues hstarting).2
    obtain ⟨job, hjob, hwaits⟩ := Ledger.canStart_iff.mp hcan
    rcases t.state.ledger.startAttempt_cases task.job t.state.now with
      ⟨_, _, -, heq, -⟩ | ⟨_, -, hall⟩
    · cases heq.symm.trans herror
    · cases (hall job hjob).symm.trans hwaits
  exact { (h.of_lent lent).ends hsound.shared htask hdirect 0 (.done .skipped) with }

theorem Timely.settled (h : t.Timely) (hsound : t.Sound slots lent) {task : Task} {job : Job}
    {result : Except Failure Artifact} {sequel : Sequel} {ledger : Ledger} {registry : Registry}
    (htask : task ∈ t.state.tasks) (hstage : task.stage = .running job)
    (hholds : Tail.spares t.tails task.ticket = true)
    (hsettle : t.state.settleResult job task.requeues result =
      (sequel, { t.state with ledger := ledger, registry := registry })) :
    ({ t with
      state := { t.state with ledger := ledger, registry := registry }
      tails := t.tails ++ [⟨task.ticket, task.job, job.attempt, .slot sequel⟩] } :
        Threads).Timely := by
  have htouches := t.state.touches_settleResult job task.requeues result
  rw [hsettle, Account.Timely.named h task htask job hstage] at htouches
  have hended := (h.of_lent lent).settled hsound.shared htask hholds hstage htouches
  have hrunning : task.requeues = true → task.stage ≠ .starting := by
    intro _ hstarting
    cases hstage.symm.trans hstarting
  exact { hended.ends (hsound.shared.of_same rfl rfl le_rfl rfl) htask hrunning job.attempt
    sequel with }

theorem Timely.freed (h : t.Timely) (hsound : t.Sound slots lent) (htail : tail ∈ t.tails)
    (sequel : Sequel) :
    ({ t with
      state := t.state.freeSlot tail.job
      tails := Tail.advanced t.tails tail.ticket (.sequel sequel) } : Threads).Timely := by
  obtain ⟨line, heq⟩ := t.state.exists_freeSlot_eq tail.job
  rw [heq]
  exact { (h.of_lent lent).advanced hsound.shared htail rfl with }

theorem Timely.followed (h : t.Timely) (hsound : t.Sound slots lent) {sequel : Sequel}
    {outcome : Outcome} {ledger : Ledger} {queue : Queue} (htail : tail ∈ t.tails)
    (hrest : tail.rest = .sequel sequel)
    (hfollow : t.state.followUp tail.job sequel =
      (outcome, { t.state with ledger := ledger, queue := queue }))
    (hspared : t.spoils (.goOn tail.ticket) = false) :
    ({ t with
      state := { t.state with ledger := ledger, queue := queue }
      tails := Tail.advanced t.tails tail.ticket (.counters outcome) } : Threads).Timely := by
  have hfollowed :
      (t.withState { t.state with ledger := ledger, queue := queue }).Timely := by
    cases sequel with
    | done result =>
      rw [← (Prod.mk.inj hfollow).2]
      exact h
    | requeue priority reason =>
      have hfound : t.tail? tail.ticket = some tail := Keyed.find?_key hsound.shared.single htail
      have hrequeued := h.requeued hsound hfound hrest hspared
      rw [State.followUp] at hfollow
      rw [hfollow] at hrequeued
      exact hrequeued
  have hshared : ({ t.state with ledger := ledger, queue := queue }.account lent).Shared slots
      t.tails := hsound.shared.of_same rfl rfl le_rfl rfl
  exact { (hfollowed.of_lent lent).advanced hshared htail rfl with }

theorem Timely.filed (h : t.Timely) {id : JobId} {priority : Int} {job : Job} {ledger : Ledger}
    (hok : t.state.ledger.setPriority id priority = .ok (job, ledger)) :
    (t.withState { t.state with ledger := ledger }).Timely := by
  rcases t.state.ledger.setPriority_cases id priority with
    ⟨before, ledger, heq, hrewrites⟩ | ⟨fault, heq, -⟩
  · cases heq.symm.trans hok
    exact Account.Timely.kept h fun id hcan => (hrewrites.canStart rfl).trans hcan
  · cases heq.symm.trans hok

theorem Timely.queued (h : t.Timely) (hsound : t.Sound slots lent) {request : Request}
    {position : Nat} {queue : Queue} (hrequest : t.request? request.tag = some request)
    (hfiling : request.filing = .filed)
    (hok : t.state.queue.enqueue t.state.gate request.job request.priority t.state.now =
      .ok (position, queue))
    (hspared : t.spoils (.proceed request.tag) = false) :
    (t.withState { t.state with queue := queue }).Timely := by
  simp only [spoils, hrequest, hfiling, hok, Option.any_some, Bool.not_eq_false'] at hspared
  rcases t.state.queue.enqueue_cases t.state.gate request.job request.priority t.state.now with
    ⟨-, found, heq⟩ | ⟨-, -, heq⟩ | ⟨-, -, -, heq⟩ | ⟨-, hfree, -, found, heq⟩
  · cases heq.symm.trans hok
    exact h
  · cases heq.symm.trans hok
  · cases heq.symm.trans hok
  · cases heq.symm.trans hok
    exact { (h.of_lent lent).joined hsound.shared hspared hfree request.priority with }

theorem Timely.forgotten (h : t.Timely) {request : Request} {ledger : Ledger}
    (hrequest : t.request? request.tag = some request) (hfiling : request.filing = .refused)
    (hforget : t.state.forget request.job = { t.state with ledger := ledger })
    (hspared : t.spoils (.proceed request.tag) = false) :
    (t.withState { t.state with ledger := ledger }).Timely := by
  rw [← hforget]
  simp only [spoils, hrequest, hfiling, Option.any_some] at hspared
  obtain ⟨job, after, hjob, hpending, heq, htouches, -⟩ | ⟨heq, -⟩ :=
    t.state.forget_cases request.job
  · rw [heq]
    simp only [hjob, Option.any_some, hpending, decide_true, Bool.and_true,
      Bool.or_eq_false_iff] at hspared
    have hqueued : request.job ∉ t.state.queue.order := by
      simpa [Queue.contains] using hspared.1
    exact h.touched htouches hqueued hspared.2
  · rw [heq]
    exact h

-- What a step does not spoil stays as it is.
theorem Timely.apply (h : l.threads.Timely) (hsound : l.threads.Sound slots l.lent)
    (hreturns : l.ReturnsOwn step) (hfresh : l.NamesAfresh step)
    (hspared : l.threads.spoils step = false) : (l.threads.apply step).Timely := by
  have hturns := l.threads.turns_apply step
  generalize l.threads.apply step = next at hturns
  cases hturns with
  | idle hstep => exact h
  | moved hwhole => exact h.moved hsound hwhole hreturns hfresh
  | begun htask hstage hholds hok => exact h.begun hsound htask hholds hok
  | skipped htask hstage hholds herror => exact h.skipped hsound htask herror
  | settled htask hstage hholds hsettle => exact h.settled hsound htask hstage hholds hsettle
  | freed htail hrest => exact h.freed hsound htail _
  | followed htail hrest hfollow => exact h.followed hsound htail hrest hfollow hspared
  | counted htail hrest => exact { (h.of_lent l.lent).advanced hsound.shared htail rfl with }
  | @reported tail outcome htail hrest => exact { Account.Timely.closes h tail.ticket with }
  | asked requests hstep => exact h
  | filed requests hok => exact h.filed hok
  | queued requests hrequest hfiling hok => exact h.queued hsound hrequest hfiling hok hspared
  | forgotten requests hrequest hfiling hforget =>
    exact h.forgotten hrequest hfiling hforget hspared

-- No step of a run spoils what waits.
def Unspoiled : Threads → List Step → Prop
  | _, [] => True
  | t, step :: steps => t.spoils step = false ∧ Unspoiled (t.apply step) steps

instance decidableUnspoiled : (t : Threads) → (steps : List Step) → Decidable (t.Unspoiled steps)
  | _, [] => .isTrue trivial
  | t, step :: steps =>
    have := decidableUnspoiled (t.apply step) steps
    inferInstanceAs (Decidable (t.spoils step = false ∧ Unspoiled (t.apply step) steps))

variable {steps first second : List Step}

theorem Timely.run (h : l.threads.Timely) (hsound : l.threads.Sound slots l.lent)
    (hlawful : l.Lawful steps) (hunspoiled : l.threads.Unspoiled steps) :
    (l.run steps).threads.Timely ∧ (l.run steps).threads.Sound slots (l.run steps).lent := by
  induction steps generalizing l with
  | nil => exact ⟨h, hsound⟩
  | cons step steps ih =>
    obtain ⟨⟨hreturns, hfresh⟩, hlawful⟩ := hlawful
    obtain ⟨hspared, hunspoiled⟩ := hunspoiled
    exact ih (h.apply hsound hreturns hfresh hspared) (hsound.apply hreturns) hlawful hunspoiled

end Threads

variable {b : Blueprint} {around : Surroundings} {t : Timeline}

end Foreman.Engine
