import Foreman.Proofs.Engine.Agreement
import Foreman.Proofs.Engine.Queueing
import Foreman.Proofs.Engine.Tenure

namespace Foreman.Engine

variable {b : Blueprint} {around : Surroundings} {t : Timeline} {s first : Site} {act : Act}
  {acts earlier later : List Act} {task : Task} {slots call tag : Nat}

-- Only a move that names a new job can take the name of another.
theorem State.namesAfresh_of_names? {state : State} {move : Move} (h : move.names? = none) :
    state.NamesAfresh move := by
  intro id hid
  rw [h] at hid
  cases hid

namespace Site

-- What becomes of an attempt in the course of what happens: it still goes on, or it came to its end
-- in one of its own moves and is gone for good.
def Settles (s : Site) (task : Task) (acts : List Act) : Prop :=
  task.Continues s.state (s.run acts).state ∨
    ∃ done move rest, acts = done ++ .move move :: rest ∧ task.IsEndedBy move ∧
      task.Continues s.state (s.run done).state ∧
      task.Closes (s.run done).state ((s.run done).make move).state ∧
      ∀ other ∈ (s.run acts).state.tasks, other.ticket ≠ task.ticket

-- However often an engine is started and stopped: there is one dispatch loop at most that has not
-- been aborted, and none has a job in hand when it rests. From a stop on, and until the next
-- start, no job leaves the queue for an attempt; once the call has returned, the loop is gone. To
-- stop changes nothing of the engine itself. What leaves the queue in a turn of the loop has an
-- attempt and a slot, and an attempt goes on until it is reported once and its slot is free. All
-- that an engine does, if nobody asks who does it, is among what is done here.
structure StopsCleanly (first : Site) : Prop where
  single : ∀ acts,
    ((first.run acts).pollers.workers.filter (fun worker => !worker.aborted)).length ≤ 1
  rests : ∀ acts, ∀ worker ∈ (first.run acts).pollers.workers, ∃ due, worker.duty = .asleep due
  still : ∀ earlier later, .move .start ∉ later →
    let s := first.run (earlier ++ .move .stop :: later)
    (∀ tag, (s.poll tag).state = s.state) ∧
      ∀ act, (s.act act).state.queue ≠ s.state.queue →
        ∃ move, act = .move move ∧ s.state.Alters move
  gone : ∀ earlier later tag, (first.run earlier).pollers.handle = some tag →
    let s := first.run (earlier ++ .move .stop :: later)
    s.stops[(first.run earlier).stops.length]? = some .over → s.pollers.isGone tag = true
  harmless : ∀ acts,
    let s := first.run acts
    s.stop.state = s.state ∧ (∀ call, (s.resume call).state = s.state) ∧
      (∀ worker ∈ s.pollers.workers, worker.aborted = true →
        (s.poll worker.tag).state = s.state) ∧
      ∀ worker ∈ s.keepers.workers, worker.aborted = true → (s.keep worker.tag).state = s.state
  handed : ∀ acts, first.Lawful acts → ∀ tag,
    let s := first.run acts
    ∀ job ∈ s.state.queue.order, job ∉ (s.poll tag).state.queue.order →
      ∃ task ∈ (s.poll tag).state.tasks, task.job = job ∧ task.requeues = true ∧
        job ∈ (s.poll tag).state.gate.holders
  kept : ∀ acts later, first.Lawful (acts ++ later) →
    ∀ task ∈ (first.run acts).state.tasks, (first.run acts).Settles task later
  ends : ∀ acts, first.Lawful acts → ∀ task ∈ (first.run acts).state.tasks,
    let s := first.run acts
    (task.stage = .starting →
      task.Closes s.state (s.make (.beginTask task.ticket)).state ∨
        ∃ job, { task with stage := .running job } ∈
          (s.make (.beginTask task.ticket)).state.tasks) ∧
      ∀ job, task.stage = .running job → ∀ result,
        task.Closes s.state (s.make (.endTask task.ticket result)).state
  covers : ∀ moves, ∃ acts, (first.run acts).view = first.view.run moves

-- Whoever a call of stop has told to go is waited for, or is gone.
def Awaits (s : Site) (call tag : Nat) : Prop :=
  tag < s.pollers.hired ∧
    (s.stops[call]? = some (.poller tag) ∨ s.pollers.isGone tag = true)

-- A call of stop goes on only when the one it waits for is gone.
theorem waits_act (hwaits : s.stops[call]? = some (.poller tag)) (act : Act) :
    (s.act act).stops[call]? = some (.poller tag) ∨ (s.act act).pollers.isGone tag = true := by
  have hlt : call < s.stops.length := (List.getElem?_eq_some_iff.mp hwaits).1
  cases act with
  | move move =>
    cases move with
    | stop =>
      refine .inl ?_
      show s.stop.stops[call]? = _
      rcases s.stop_cases with ⟨other, -, heq⟩ | ⟨-, heq⟩ <;>
      · rw [heq]
        exact (List.getElem?_append_left hlt).trans hwaits
    | _ => exact .inl hwaits
  | poll other => exact .inl (by rw [Site.act, s.stops_poll, hwaits])
  | keep other => exact .inl (by rw [Site.act, s.stops_keep, hwaits])
  | resume other =>
    rcases s.resume_cases other with heq | ⟨found, hfound, hgone, heq⟩ | ⟨found, hfound, -, heq⟩
    · rw [Site.act, heq]
      exact .inl hwaits
    · rw [Site.act, heq]
      by_cases hsame : other = call
      · rw [hsame, hwaits] at hfound
        cases hfound
        exact .inr hgone
      · exact .inl ((List.getElem?_set_ne hsame).trans hwaits)
    · rw [Site.act, heq]
      refine .inl ((List.getElem?_set_ne ?_).trans hwaits)
      rintro rfl
      rw [hwaits] at hfound
      cases hfound

namespace Sound

variable (h : s.Sound)

include h

theorem state_poll_of_aborted {worker : Worker Point} (hworker : worker ∈ s.pollers.workers)
    (haborted : worker.aborted = true) : (s.poll worker.tag).state = s.state := by
  rcases h.poll_cases worker.tag with heq | ⟨other, -, -, -, heq⟩ |
    ⟨other, hother, htag, hactive, -⟩
  · rw [heq]
  · rw [heq]
    rfl
  · rw [h.pollers.eq_of_tag hother hworker htag, haborted] at hactive
    cases hactive

theorem state_keep_of_aborted {worker : Worker Upkeep} (hworker : worker ∈ s.keepers.workers)
    (haborted : worker.aborted = true) : (s.keep worker.tag).state = s.state := by
  rcases s.keep_cases worker.tag with heq | ⟨other, -, -, -, heq⟩ |
    ⟨other, hother, htag, hactive, -⟩
  · rw [heq]
  · rw [heq]
    rfl
  · rw [h.keepers.eq_of_tag hother hworker htag, haborted] at hactive
    cases hactive

-- With no handle on anyone who polls there is nobody who would.
theorem state_poll_of_handle (hhandle : s.pollers.handle = none) (tag : Nat) :
    (s.poll tag).state = s.state := by
  cases hfound : s.pollers.worker? tag with
  | none => rw [Site.poll, hfound]
  | some worker =>
    obtain ⟨hworker, rfl⟩ := Crew.worker?_mem hfound
    exact h.state_poll_of_aborted hworker (h.pollers.aborted_of_handle hworker hhandle)

-- The accounts of an engine with workers change as by the moves of one without.
theorem step_act (hregular : s.loans.Regular slots) (hallowed : s.Allows act) :
    ∃ move, Account.Step move s.loans.account (s.act act).loans.account ∧
      s.state.NamesAfresh move ∧ (s.act act).loans.state.Known := by
  rcases h.loans_act act with hsame | ⟨move, rfl, -, hmove⟩ | ⟨worker, -, rfl, -, hpoll⟩ |
    ⟨worker, -, rfl, hkeep⟩
  · rw [hsame]
    exact ⟨.poll, .same _ _, State.namesAfresh_of_names? rfl, hregular.known⟩
  · obtain ⟨hreturns, hfresh⟩ := hallowed
    obtain ⟨hstep, hknown⟩ := Account.make_step hregular.known hregular.balanced hreturns
    rw [hmove]
    exact ⟨move, hstep, hfresh, hknown⟩
  · obtain ⟨hcalls, hcallers⟩ := State.burstWithin_frame s.state.queue.length s.state
    rw [hpoll]
    exact ⟨.poll, .admitted (Account.burstWithin_admits s.state.queue.length s.state s.loans.lent),
      State.namesAfresh_of_names? rfl, hregular.known.same hcalls hcallers⟩
  · obtain ⟨limiter, files, next, heq⟩ := State.exists_maintain_eq s.state worker.duty
    rw [hkeep, heq]
    exact ⟨.maintain, Account.evict_step .maintain hregular.balanced.distinct _ _,
      State.namesAfresh_of_names? rfl, hregular.known.same rfl rfl⟩

theorem regular_act (hregular : s.loans.Regular slots) (hallowed : s.Allows act) :
    (s.act act).loans.Regular slots := by
  obtain ⟨move, hstep, hfresh, hknown⟩ := h.step_act hregular hallowed
  exact ⟨hknown, hregular.balanced.step hstep,
    hregular.faithful.step hregular.balanced hstep hfresh⟩

theorem regular_run (hregular : s.loans.Regular slots) (hlawful : s.Lawful acts) :
    (s.run acts).loans.Regular slots := by
  induction acts generalizing s with
  | nil => exact hregular
  | cons act acts ih => exact ih (h.act act) (h.regular_act hregular hlawful.1) hlawful.2

theorem past_run (hregular : s.loans.Regular slots) (hlawful : s.Lawful acts)
    (hpast : s.loans.account.Past tag) : (s.run acts).loans.account.Past tag := by
  induction acts generalizing s with
  | nil => exact hpast
  | cons act acts ih =>
    obtain ⟨move, hstep, -, -⟩ := h.step_act hregular hlawful.1
    exact ih (h.act act) (h.regular_act hregular hlawful.1) hlawful.2 (hpast.step hstep)

-- Whatever happens next, an attempt goes on or comes to its end in a move of its own.
theorem continues_or_closes (hregular : s.loans.Regular slots) (hallowed : s.Allows act)
    (htask : task ∈ s.state.tasks) : task.Continues s.state (s.act act).state ∨
      ∃ move, act = .move move ∧ task.IsEndedBy move ∧
        task.Closes s.state (s.act act).state := by
  have hnext := h.regular_act hregular hallowed
  have hstays : task ∈ (s.act act).state.tasks →
      (s.act act).state.audit.reported = s.state.audit.reported →
      task.Continues s.state (s.act act).state := fun hmem hreported =>
    ⟨⟨task.stage, hmem⟩, hnext.balanced.mem_holders hmem, congrArg _ hreported⟩
  rcases h.loans_act act with hsame | ⟨move, rfl, -, hmove⟩ | ⟨worker, -, rfl, -, hpoll⟩ |
    ⟨worker, -, rfl, hkeep⟩
  · have hstate : (s.act act).state = s.state := congrArg Loans.state hsame
    rw [hstate]
    exact .inl (hregular.continues_self htask)
  · have hstate : (s.act (.move move)).state = (s.loans.make move).state :=
      congrArg Loans.state hmove
    rw [hstate]
    exact (hregular.continues_or_closes hallowed.1 hallowed.2 htask).imp_right
      fun hends => ⟨move, rfl, hends⟩
  · have hstate : (s.act (.poll worker.tag)).state = s.state.burst := congrArg Loans.state hpoll
    obtain ⟨⟨new, hnew⟩, hreported⟩ := Annals.dispatches_tasks
      (Annals.burstWithin_dispatches s.state.queue.length s.state)
    have htasks : s.state.burst.tasks = s.state.tasks ++ new := hnew
    refine .inl (hstays ?_ ?_)
    · rw [hstate, htasks]
      exact List.mem_append_left _ htask
    · rw [hstate]
      exact hreported
  · have hstate : (s.act (.keep worker.tag)).state =
        (s.state.maintain worker.duty).timed none none := congrArg Loans.state hkeep
    obtain ⟨limiter, files, next, heq⟩ := State.exists_maintain_eq s.state worker.duty
    refine .inl (hstays ?_ ?_)
    · rw [hstate, heq]
      exact htask
    · rw [hstate, heq]
      rfl

theorem settles (hregular : s.loans.Regular slots) (hlawful : s.Lawful acts)
    (htask : task ∈ s.state.tasks) : s.Settles task acts := by
  induction acts generalizing s task with
  | nil => exact .inl (hregular.continues_self htask)
  | cons act acts ih =>
    obtain ⟨hallowed, hlawful⟩ := hlawful
    have hnext := h.act act
    have hregular' := h.regular_act hregular hallowed
    rcases h.continues_or_closes hregular hallowed htask with hgoes | ⟨move, rfl, hends, hcloses⟩
    · obtain ⟨stage, hmem⟩ := hgoes.there
      rcases ih hnext hregular' hlawful hmem with hstill |
        ⟨done, move, rest, rfl, hends, hcontinues, hcloses, hpast⟩
      · exact .inl (hgoes.trans hstill)
      · exact .inr ⟨act :: done, move, rest, rfl, hends, hgoes.trans hcontinues,
          ⟨hcloses.reported, hcloses.gone, hcloses.freed⟩, hpast⟩
    · have hpast : (s.act (.move move)).loans.account.Past task.ticket := by
        obtain ⟨step, hstep, -, -⟩ := h.step_act hregular hallowed
        exact ⟨Nat.lt_of_lt_of_le (hregular.balanced.issued task htask) hstep.issued_le,
          hcloses.gone⟩
      exact .inr ⟨[], move, acts, rfl, hends, hregular.continues_self htask, hcloses,
        (hnext.past_run hregular' hlawful hpast).2⟩

theorem handed (hregular : s.loans.Regular slots) (tag : Nat) {job : JobId}
    (hbefore : job ∈ s.state.queue.order) (hafter : job ∉ (s.poll tag).state.queue.order) :
    ∃ task ∈ (s.poll tag).state.tasks, task.job = job ∧ task.requeues = true ∧
      job ∈ (s.poll tag).state.gate.holders := by
  have hallowed : s.Allows (.poll tag) := trivial
  have hnext : (s.poll tag).loans.Regular slots := h.regular_act hregular hallowed
  rcases h.loans_act (.poll tag) with hsame | ⟨move, hmove, -⟩ | ⟨worker, -, -, -, hpoll⟩ |
    ⟨worker, -, hkeep, -⟩
  · have hstate : (s.poll tag).state = s.state := congrArg Loans.state hsame
    rw [hstate] at hafter
    exact absurd hbefore hafter
  · cases hmove
  · have hstate : (s.poll tag).state = s.state.burst := congrArg Loans.state hpoll
    rw [hstate] at hafter
    obtain ⟨task, htask, rfl, hrequeues⟩ := Annals.dispatches_queued
      (Annals.burstWithin_dispatches s.state.queue.length s.state) hbefore hafter
    have hmem : task ∈ (s.poll tag).state.tasks := hstate ▸ htask
    exact ⟨task, hmem, rfl, hrequeues, hnext.balanced.mem_holders hmem⟩
  · cases hkeep

-- Only a start puts someone to work.
theorem handle_act (hhandle : s.pollers.handle = none) (hact : act ≠ .move .start) :
    (s.act act).pollers.handle = none := by
  cases act with
  | move move =>
    cases move with
    | start => exact absurd rfl hact
    | stop => exact s.handle_stop
    | _ => exact hhandle
  | poll tag =>
    rcases h.poll_cases tag with heq | ⟨worker, -, -, -, heq⟩ |
      ⟨worker, -, -, -, due, -, ⟨-, heq⟩ | ⟨-, heq⟩⟩ <;>
    · rw [Site.act, heq]
      exact hhandle
  | keep tag => rw [Site.act, s.pollers_keep, hhandle]
  | resume call => rw [Site.act, s.pollers_resume, hhandle]

theorem handle_run (hhandle : s.pollers.handle = none) (hacts : .move .start ∉ acts) :
    (s.run acts).pollers.handle = none := by
  induction acts generalizing s with
  | nil => exact hhandle
  | cons act acts ih =>
    obtain ⟨hact, hacts⟩ := not_or.mp (mt List.mem_cons.mpr hacts)
    exact ih (h.act act) (h.handle_act hhandle (Ne.symm hact)) hacts

theorem pollers_act (act : Act) : s.pollers.Changes (s.act act).pollers := by
  cases act with
  | move move =>
    cases move with
    | start => exact .hired _
    | stop =>
      show s.pollers.Changes s.stop.pollers
      rcases s.stop_cases with ⟨tag, -, heq⟩ | ⟨-, heq⟩
      · rw [heq]
        exact .dismissed
      · rw [heq]
        exact .same
    | _ => exact .same
  | poll tag =>
    rcases h.poll_cases tag with heq | ⟨worker, -, -, -, heq⟩ |
      ⟨worker, -, -, -, due, -, ⟨-, heq⟩ | ⟨-, heq⟩⟩
    · rw [Site.act, heq]
      exact .same
    · rw [Site.act, heq]
      exact .left tag
    · rw [Site.act, heq]
      exact .assigned tag _
    · rw [Site.act, heq]
      exact .assigned tag _
  | keep tag =>
    rw [Site.act, s.pollers_keep]
    exact .same
  | resume call =>
    rw [Site.act, s.pollers_resume]
    exact .same

-- A call of stop waits until the one it told to go is gone.
theorem awaits_act (hawaits : s.Awaits call tag) (act : Act) : (s.act act).Awaits call tag := by
  have hchanges := h.pollers_act act
  obtain ⟨hhired, hwaits | hgone⟩ := hawaits
  · exact ⟨Nat.lt_of_lt_of_le hhired hchanges.hired_le, waits_act hwaits act⟩
  · have hpast := hchanges.past ⟨hgone, hhired⟩
    exact ⟨hpast.2, .inr hpast.1⟩

theorem awaits_run (hawaits : s.Awaits call tag) (acts : List Act) :
    (s.run acts).Awaits call tag := by
  induction acts generalizing s with
  | nil => exact hawaits
  | cons act acts ih => exact ih (h.act act) (h.awaits_act hawaits act)

-- With nobody there to poll, the queue is left to those who call and to attempts made again.
theorem alters_of_handle (hhandle : s.pollers.handle = none)
    (hqueue : (s.act act).state.queue ≠ s.state.queue) :
    ∃ move, act = .move move ∧ s.state.Alters move := by
  rcases h.loans_act act with hsame | ⟨move, rfl, hpoll, hmove⟩ | ⟨worker, -, rfl, -, -⟩ |
    ⟨worker, -, rfl, hkeep⟩
  · exact absurd (congrArg (fun loans => loans.state.queue) hsame) hqueue
  · refine ⟨move, rfl, ?_⟩
    by_contra halters
    have hkept := State.queue_apply hpoll halters
    exact hqueue ((congrArg (fun loans => loans.state.queue) hmove).trans hkept)
  · exact absurd (congrArg State.queue (h.state_poll_of_handle hhandle worker.tag)) hqueue
  · have hkept := State.queue_maintain s.state worker.duty
    exact absurd ((congrArg (fun loans => loans.state.queue) hkeep).trans hkept) hqueue

theorem awaits_stop (hhandle : s.pollers.handle = some tag) :
    s.stop.Awaits s.stops.length tag := by
  obtain ⟨worker, hworker, rfl⟩ := h.pollers.present tag hhandle
  rcases s.stop_cases with ⟨other, hother, heq⟩ | ⟨hnone, -⟩
  · obtain rfl := Option.some_inj.mp (hhandle.symm.trans hother)
    rw [heq]
    exact ⟨h.pollers.hired worker hworker, .inl (by simp)⟩
  · rw [hhandle] at hnone
    cases hnone

-- An attempt that is about to begin begins, or is over at once. The operation of an attempt that
-- has begun may end in any way, and then the attempt is over.
theorem begins (hregular : s.loans.Regular slots) (htask : task ∈ s.state.tasks)
    (hstage : task.stage = .starting) :
    task.Closes s.state (s.make (.beginTask task.ticket)).state ∨
      ∃ job, { task with stage := .running job } ∈
        (s.make (.beginTask task.ticket)).state.tasks := by
  have hfind : s.state.task? task.ticket = some task := hregular.task?_eq htask
  have hstate : (s.make (.beginTask task.ticket)).state = s.state.beginTask task := by
    show s.state.apply (.beginTask task.ticket) = _
    simp only [State.apply, State.withTask, hfind, hstage]
  have hallowed : s.Allows (.move (.beginTask task.ticket)) :=
    ⟨trivial, State.namesAfresh_of_names? rfl⟩
  rcases h.continues_or_closes hregular hallowed htask with hgoes | ⟨-, -, -, hcloses⟩
  · obtain ⟨stage, hmem⟩ := hgoes.there
    have hmem : { task with stage := stage } ∈ (s.state.beginTask task).tasks := hstate ▸ hmem
    rw [hstate]
    exact .inr ((State.beginTask_cases htask).resolve_right fun hgone => hgone _ hmem rfl)
  · exact .inl hcloses

theorem ends (hregular : s.loans.Regular slots) (htask : task ∈ s.state.tasks) {job : Job}
    (hstage : task.stage = .running job) (result : Except Failure Artifact) :
    task.Closes s.state (s.make (.endTask task.ticket result)).state := by
  have hfind : s.state.task? task.ticket = some task := hregular.task?_eq htask
  have hstate : (s.make (.endTask task.ticket result)).state = s.state.endTask task job result := by
    show s.state.apply (.endTask task.ticket result) = _
    simp only [State.apply, State.withTask, hfind, hstage]
  have hallowed : s.Allows (.move (.endTask task.ticket result)) :=
    ⟨trivial, State.namesAfresh_of_names? rfl⟩
  rcases h.continues_or_closes hregular hallowed htask with hgoes | ⟨-, -, -, hcloses⟩
  · obtain ⟨stage, hmem⟩ := hgoes.there
    have hmem : { task with stage := stage } ∈ (s.state.endTask task job result).tasks :=
      hstate ▸ hmem
    have hgone := State.gone_endTask s.state task job result _ hmem
    exact absurd rfl hgone
  · exact hcloses

-- From a stop on, and until the next start, nobody polls.
theorem handle_after_stop (hlater : .move .start ∉ later) :
    (s.run (.move .stop :: later)).pollers.handle = none :=
  h.stop.handle_run (handle_stop _) hlater

-- A call of stop that is over has seen the one go whom it told to.
theorem isGone_after_stop (hhandle : s.pollers.handle = some tag)
    (hover : (s.run (.move .stop :: later)).stops[s.stops.length]? = some .over) :
    (s.run (.move .stop :: later)).pollers.isGone tag = true := by
  obtain ⟨-, hwaits | hgone⟩ := h.stop.awaits_run (h.awaits_stop hhandle) later
  · cases hover.symm.trans hwaits
  · exact hgone

theorem stopsCleanly (hregular : s.loans.Regular slots) : s.StopsCleanly where
  single := fun acts => (h.run acts).pollers.length_active_le
  rests := fun acts => (h.run acts).asleep
  still := by
    intro earlier later hlater
    have hsound := h.run (earlier ++ .move .stop :: later)
    rw [run_append] at hsound ⊢
    have hhandle := (h.run earlier).handle_after_stop hlater
    exact ⟨hsound.state_poll_of_handle hhandle,
      fun act hqueue => hsound.alters_of_handle hhandle hqueue⟩
  gone := by
    intro earlier later tag hhandle
    rw [run_append]
    exact (h.run earlier).isGone_after_stop hhandle
  harmless := fun acts =>
    ⟨congrArg Loans.state (loans_stop _), fun call => congrArg Loans.state (loans_resume _ call),
      fun _ hworker haborted => (h.run acts).state_poll_of_aborted hworker haborted,
      fun _ hworker haborted => (h.run acts).state_keep_of_aborted hworker haborted⟩
  handed := fun acts hlawful tag _ hbefore hafter =>
    (h.run acts).handed (h.regular_run hregular hlawful) tag hbefore hafter
  kept := by
    intro acts later hlawful task htask
    obtain ⟨hfirst, hsecond⟩ := lawful_append.mp hlawful
    exact (h.run acts).settles (h.regular_run hregular hfirst) hsecond htask
  ends := by
    intro acts hlawful task htask
    have hregular' := h.regular_run hregular hlawful
    exact ⟨fun hstage => (h.run acts).begins hregular' htask hstage,
      fun job hstage result => (h.run acts).ends hregular' htask hstage result⟩
  covers := h.exists_acts_run

end Sound

-- An engine that is built may be started and stopped at any time.
theorem stopsCleanly_of_build (hbuild : b.build around = .ok t) :
    (ofState t.state).view = t.state ∧ (ofState t.state).StopsCleanly := by
  have hstate := Blueprint.state_of_build hbuild
  have hpoll : t.state.poll = none := hstate ▸ rfl
  have hupkeep : t.state.upkeep = none := hstate ▸ rfl
  have hsound : (ofState t.state).Sound := sound_ofState hpoll hupkeep
  have hregular : (ofState t.state).loans.Regular (b.slots around) :=
    Blueprint.regular_of_build hbuild
  exact ⟨view_ofState hpoll hupkeep, hsound.stopsCleanly hregular⟩

-- Of two jobs one has the only slot when the engine is stopped. Its attempt fails while nobody
-- polls, so that both jobs wait until the engine is started again.
def restartedRun : List Act :=
  [.move (.submit ⟨1⟩ [] 5 none), .move (.submit ⟨2⟩ [] 5 none), .move .start, .poll 0,
    .move .stop, .move (.beginTask 0), .poll 0, .resume 0, .keep 0, .resume 0,
    .move (.endTask 0 (.error (.retriable "busy"))), .move .start, .poll 1]

theorem stopsCleanly_of_build_restartedRun :
    ∃ t, (Blueprint.idle 1).build default = .ok t ∧
      ((ofState t.state).view = t.state ∧ (ofState t.state).StopsCleanly) ∧
      (ofState t.state).Lawful restartedRun ∧
      ((ofState t.state).run restartedRun).stops = [.over] ∧
      ((ofState t.state).run (restartedRun.take 11)).state.queue.order = [⟨2⟩, ⟨1⟩] ∧
      ((ofState t.state).run restartedRun).state.queue.order = [⟨1⟩] ∧
      ((ofState t.state).run restartedRun).state.gate.holders = [⟨2⟩] := by
  have hbuild : (Blueprint.idle 1).build default = .ok _ := rfl
  refine ⟨_, hbuild, stopsCleanly_of_build hbuild, ?_, ?_, ?_, ?_, ?_⟩
  · decide
  · decide
  · decide
  · decide
  · decide

end Site

end Foreman.Engine
