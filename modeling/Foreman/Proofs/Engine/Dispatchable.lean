import Foreman.Proofs.Engine.Annals

namespace Foreman

namespace Ledger

variable {l l' : Ledger} {id other : JobId}

-- The job has not started or is to be tried again.
def canStart (l : Ledger) (id : JobId) : Bool :=
  (l.get? id).any fun job => job.status.canBecome .processing

theorem canStart_iff : l.canStart id = true ↔
    ∃ job, l.get? id = some job ∧ job.status.canBecome .processing = true := by
  rw [canStart, Option.any_eq_true]

theorem Ready.canStart (h : l.Ready id) : l.canStart id = true := by
  obtain ⟨job, hjob, hcan, -⟩ := h
  exact canStart_iff.mpr ⟨job, hjob, hcan⟩

theorem Touches.canStart (h : l.Touches id l') (hne : other ≠ id) :
    l'.canStart other = l.canStart other := by
  rw [Ledger.canStart, h.others other hne, Ledger.canStart]

-- It depends on nothing in the record but the status.
theorem Rewrites.canStart {job next : Job} (h : l.Rewrites id job next l')
    (hstatus : next.status = job.status) : l'.canStart other = l.canStart other := by
  by_cases he : other = id
  · rw [he, Ledger.canStart, Ledger.canStart, h.before, h.after, Option.any_some, Option.any_some,
      hstatus]
  · exact h.toTouches.canStart he

theorem Sheds.canStart (h : l.Sheds l') (hcan : l.canStart id = true) :
    l'.canStart id = true := by
  obtain ⟨job, hjob, hwaits⟩ := canStart_iff.mp hcan
  refine canStart_iff.mpr ⟨job, h.kept id job hjob ?_, hwaits⟩
  refine Bool.eq_false_iff.mpr fun hover => ?_
  rw [Status.canBecome_of_isTerminal hover] at hwaits
  cases hwaits

end Ledger

namespace Engine

open Account

variable {b : Blueprint} {around : Surroundings} {t : Timeline} {s : State} {l : Loans}
  {move : Move} {moves : List Move} {slots : Nat} {id : JobId} {task : Task} {job : Job}

namespace State

-- An attempt begins: its job is in progress from then on, and the books have nothing to say of it
-- but that it has begun.
structure Begins (s s' : State) (task : Task) (job : Job) : Prop where
  record : s'.ledger.get? task.job = some (job.begun s.now)
  running : { task with stage := .running (job.begun s.now) } ∈ s'.tasks
  tally : s'.tally = s.tally.begin
  audit : s'.audit = s.audit

-- Jobs in the queue can be tried, and eviction spares them. When the dispatcher takes one of them
-- out, there is an attempt at it, and such an attempt begins when its time comes.
structure Dispatchable (s : State) : Prop where
  queued : ∀ id ∈ s.queue.order, ∃ job, s.ledger.get? id = some job ∧
    (job.status = .pending ∨ job.status = .retrying)
  spared : ∀ id ∈ s.queue.order, ∀ ttl now, id ∉ (s.ledger.evict ttl now).1
  dispatched : ∀ id ∈ s.queue.order, id ∉ (s.apply .poll).queue.order →
    ∃ ticket, ⟨ticket, id, true, .starting⟩ ∈ (s.apply .poll).tasks
  begins : ∀ task ∈ s.tasks, task.requeues = true → task.stage = .starting →
    ∃ job, s.ledger.get? task.job = some job ∧
      (job.status = .pending ∨ job.status = .retrying) ∧
      Begins s (s.apply (.beginTask task.ticket)) task job

end State

-- A job can start if it waits, for its first attempt or for another one.
theorem pending_or_retrying_iff :
    job.status.canBecome .processing = true ↔
      job.status = .pending ∨ job.status = .retrying := by
  cases job.status <;> simp [Status.canBecome]

namespace State

theorem waits_of_canStart (hcan : s.ledger.canStart id = true) :
    ∃ job, s.ledger.get? id = some job ∧ (job.status = .pending ∨ job.status = .retrying) := by
  obtain ⟨job, hjob, hwaits⟩ := Ledger.canStart_iff.mp hcan
  exact ⟨job, hjob, pending_or_retrying_iff.mp hwaits⟩

end State

namespace Loans.Regular

variable (h : l.Regular slots)

include h

theorem waits_of_queued (hqueued : id ∈ l.state.queue.order) :
    ∃ job, l.state.ledger.get? id = some job ∧
      (job.status = .pending ∨ job.status = .retrying) :=
  State.waits_of_canStart (h.faithful.queued id hqueued).canStart

end Loans.Regular

end Engine

end Foreman
