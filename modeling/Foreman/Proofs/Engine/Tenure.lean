import Foreman.Proofs.Engine.Annals
import Foreman.Proofs.Engine.Reports

namespace Foreman.Engine

def State.reportsOn (s : State) (job : JobId) : List AttemptRecord :=
  s.audit.reported.filter (fun record => record.job == job)

-- An attempt goes on from one state to another: it keeps its slot, and nothing is reported of it.
structure Task.Continues (task : Task) (s s' : State) : Prop where
  there : ∃ stage, { task with stage := stage } ∈ s'.tasks
  held : task.job ∈ s'.gate.holders
  silent : s'.reportsOn task.job = s.reportsOn task.job

-- An attempt comes to its end from one state to the next: it is reported once, and its slot is
-- given back.
structure Task.Closes (task : Task) (s s' : State) : Prop where
  reported : ∃ record, record.job = task.job ∧ s'.audit.reported = s.audit.reported ++ [record]
  gone : ∀ other ∈ s'.tasks, other.ticket ≠ task.ticket
  freed : task.job ∉ s'.gate.holders

-- The moves in which an attempt can come to its end.
def Task.IsEndedBy (task : Task) (move : Move) : Prop :=
  move = .beginTask task.ticket ∨ ∃ result, move = .endTask task.ticket result

variable {s s' s'' : State} {task : Task} {stage : Stage} {move : Move} {slots ticket : Nat}
  {l : Loans}

theorem Task.Continues.trans (h : task.Continues s s')
    (h' : { task with stage := stage }.Continues s' s'') : task.Continues s s'' :=
  ⟨h'.there, h'.held, h'.silent.trans h.silent⟩

namespace State

theorem gone_dropTask (s : State) (ticket : Nat) :
    ∀ other ∈ (s.dropTask ticket).tasks, other.ticket ≠ ticket :=
  fun _ hother => (Account.mem_without.mp hother).2

theorem gone_endTask (s : State) (task : Task) (job : Job) (result : Except Failure Artifact) :
    ∀ other ∈ (s.endTask task job result).tasks, other.ticket ≠ task.ticket :=
  gone_dropTask _ _

theorem beginTask_cases (htask : task ∈ s.tasks) :
    (∃ job, { task with stage := .running job } ∈ (s.beginTask task).tasks) ∨
      ∀ other ∈ (s.beginTask task).tasks, other.ticket ≠ task.ticket := by
  simp only [beginTask]
  split
  · exact .inl ⟨_, Account.mem_staged.mpr (.inr ⟨task, htask, rfl, rfl⟩)⟩
  · exact .inr (gone_dropTask _ _)

end State

namespace Annals

theorem dispatches_tasks {a a' : Annals} (h : Relation.ReflTransGen Dispatches a a') :
    (∃ new, a'.tasks = a.tasks ++ new) ∧ a'.reported = a.reported := by
  induction h with
  | refl => exact ⟨⟨[], (List.append_nil _).symm⟩, rfl⟩
  | tail _ hdispatches ih =>
    obtain ⟨⟨new, hnew⟩, hreported⟩ := ih
    obtain ⟨ticket, -⟩ := hdispatches
    exact ⟨⟨new ++ [_], by rw [hnew, List.append_assoc]⟩, hreported⟩

-- The jobs that leave the queue are those that get an attempt.
theorem dispatches_queued {a a' : Annals} (h : Relation.ReflTransGen Dispatches a a') {job : JobId}
    (hbefore : job ∈ a.queue.order) (hafter : job ∉ a'.queue.order) :
    ∃ task ∈ a'.tasks, task.job = job ∧ task.requeues = true := by
  induction h with
  | refl => exact absurd hbefore hafter
  | @tail middle last _ hdispatches ih =>
    obtain ⟨ticket, -⟩ := hdispatches
    by_cases hmiddle : job ∈ middle.queue.order
    · rw [Queue.mem_order_without, not_and_not_right] at hafter
      exact ⟨_, List.mem_append_right _ (List.mem_singleton_self _), (hafter hmiddle).symm, rfl⟩
    · obtain ⟨task, htask, hjob, hrequeues⟩ := ih hmiddle
      exact ⟨task, List.mem_append_left _ htask, hjob, hrequeues⟩

-- What a move makes of the attempts: all of them go on, or one of them is reported and gone.
theorem Writes.tasks_cases {a : Annals} {calls : Option JobId} (h : Writes s move calls a) :
    ((∀ task ∈ s.tasks, ∃ stage, { task with stage := stage } ∈ a.tasks) ∧
      a.reported = s.audit.reported) ∨
    ∃ task ∈ s.tasks, ∃ record : AttemptRecord, task.IsEndedBy move ∧
      a.tasks = Account.without s.tasks task.ticket ∧
      a.reported = s.audit.reported ++ [record] ∧ record.job = task.job := by
  have hsame : ∀ task ∈ s.tasks, ∃ stage, { task with stage := stage } ∈ s.tasks :=
    fun task htask => ⟨task.stage, htask⟩
  cases h with
  | dispatched hdispatches =>
    obtain ⟨⟨new, hnew⟩, hreported⟩ := dispatches_tasks hdispatches
    refine .inl ⟨fun task htask => ⟨task.stage, ?_⟩, hreported⟩
    rw [hnew]
    exact List.mem_append_left _ htask
  | seized _ =>
    exact .inl ⟨fun task htask => ⟨task.stage, List.mem_append_left _ htask⟩, rfl⟩
  | @begun begun job _ _ _ _ _ =>
    refine .inl ⟨fun task htask => ?_, rfl⟩
    by_cases hticket : task.ticket = begun.ticket
    · exact ⟨_, Account.mem_staged.mpr (.inr ⟨task, htask, hticket, rfl⟩)⟩
    · exact ⟨task.stage, Account.mem_staged.mpr (.inl ⟨htask, hticket⟩)⟩
  | skipped hmove htask _ _ => exact .inr ⟨_, htask, _, .inl hmove, rfl, rfl, rfl⟩
  | ended htask hmove _ _ _ _ _ => exact .inr ⟨_, htask, _, .inr ⟨_, hmove⟩, rfl, rfl, rfl⟩
  | _ => exact .inl ⟨hsame, rfl⟩

end Annals

namespace Loans.Regular

variable (h : l.Regular slots)

include h

theorem task?_eq (htask : task ∈ l.state.tasks) : l.state.task? task.ticket = some task :=
  Keyed.find?_key h.balanced.tickets htask

theorem continues_self (htask : task ∈ l.state.tasks) : task.Continues l.state l.state :=
  ⟨⟨task.stage, htask⟩, h.balanced.mem_holders htask, rfl⟩

-- The slot of an attempt that is gone is free, since nobody else has it.
theorem freed {l' : Loans} (h' : l'.Regular slots) (htask : task ∈ l.state.tasks)
    (htasks : l'.state.tasks = Account.without l.state.tasks task.ticket)
    (hlent : l'.lent = l.lent) : task.job ∉ l'.state.gate.holders := by
  intro hheld
  have hheld := h'.balanced.holders.mem_iff.mp hheld
  rw [List.mem_append, List.mem_map] at hheld
  rcases hheld with ⟨other, hother, hjob⟩ | hlent'
  · have hother : other ∈ Account.without l.state.tasks task.ticket := htasks ▸ hother
    obtain ⟨hother, hticket⟩ := Account.mem_without.mp hother
    exact hticket (congrArg Task.ticket (h.balanced.eq_of_job hother htask hjob))
  · have hlent'' : task.job ∈ l.lent := hlent ▸ hlent'
    exact List.disjoint_of_nodup_append h.balanced.jobs_nodup (List.mem_map_of_mem htask) hlent''

-- A move leaves an attempt as it is, brings it further, or brings it to its end.
theorem continues_or_closes (hreturns : l.ReturnsOwn move) (hfresh : l.state.NamesAfresh move)
    (htask : task ∈ l.state.tasks) : task.Continues l.state (l.make move).state ∨
      task.IsEndedBy move ∧ task.Closes l.state (l.make move).state := by
  have hnext := h.make hreturns hfresh
  rcases (Annals.make_writes h hfresh).tasks_cases with ⟨hall, hreported⟩ |
    ⟨other, hother, record, hmove, htasks, hreported, hjob⟩
  · obtain ⟨stage, hmem⟩ := hall task htask
    have hheld := hnext.balanced.mem_holders hmem
    exact .inl ⟨⟨stage, hmem⟩, hheld, congrArg _ hreported⟩
  · have hwithout : (l.make move).state.tasks = Account.without l.state.tasks other.ticket := htasks
    have hlast : (l.make move).state.audit.reported = l.state.audit.reported ++ [record] :=
      hreported
    by_cases hticket : task.ticket = other.ticket
    · obtain rfl := h.balanced.eq_of_ticket htask hother hticket
      have hlent : (l.make move).lent = l.lent := by
        rcases hmove with rfl | ⟨result, rfl⟩
        · exact List.append_nil _
        · exact List.append_nil _
      refine .inr ⟨hmove, ⟨record, hjob, hlast⟩, fun left hleft => ?_,
        h.freed hnext htask hwithout hlent⟩
      rw [hwithout] at hleft
      exact (Account.mem_without.mp hleft).2
    · have hmem : task ∈ (l.make move).state.tasks := by
        rw [hwithout]
        exact Account.mem_without.mpr ⟨htask, hticket⟩
      have hother : record.job ≠ task.job := by
        rw [hjob]
        intro he
        exact hticket (congrArg Task.ticket (h.balanced.eq_of_job htask hother he.symm))
      refine .inl ⟨⟨task.stage, hmem⟩, hnext.balanced.mem_holders hmem, ?_⟩
      rw [State.reportsOn, hlast, List.filter_append]
      simp [hother, State.reportsOn]

end Loans.Regular

namespace Account

variable {a a' : Account}

-- An attempt that was made and is over does not come back.
def Past (a : Account) (ticket : Nat) : Prop :=
  ticket < a.issued ∧ ∀ task ∈ a.tasks, task.ticket ≠ ticket

theorem Admits.issued_le (hadmits : Relation.ReflTransGen Admits a a') : a.issued ≤ a'.issued := by
  induction hadmits with
  | refl => exact Nat.le_refl _
  | tail _ hadmits ih =>
    obtain ⟨requeues, -, -⟩ := hadmits
    exact Nat.le_succ_of_le ih

theorem Step.issued_le (hstep : Step move a a') : a.issued ≤ a'.issued := by
  cases hstep with
  | quiet _ hissued => exact hissued
  | admitted hadmits => exact Admits.issued_le hadmits
  | _ => exact Nat.le_refl _

theorem Past.admits (h : a.Past ticket) (hadmits : a.Admits a') : a'.Past ticket := by
  obtain ⟨requeues, -, -⟩ := hadmits
  refine ⟨Nat.lt_succ_of_lt h.1, fun task htask => ?_⟩
  rcases List.mem_append.mp htask with hold | hnew
  · exact h.2 task hold
  · rw [List.mem_singleton.mp hnew]
    exact Nat.ne_of_gt h.1

theorem Past.step (h : a.Past ticket) (hstep : Step move a a') : a'.Past ticket := by
  refine ⟨Nat.lt_of_lt_of_le h.1 hstep.issued_le, ?_⟩
  have hwithout : ∀ gone, ∀ task ∈ without a.tasks gone, task.ticket ≠ ticket :=
    fun gone task htask => h.2 task (mem_without.mp htask).1
  cases hstep with
  | admitted hadmits =>
    have hpast : a'.Past ticket := by
      induction hadmits with
      | refl => exact h
      | tail _ hadmits ih => exact ih.admits hadmits
    exact hpast.2
  | begun _ _ _ _ =>
    intro task htask
    rcases mem_staged.mp htask with ⟨hold, -⟩ | ⟨old, hold, -, rfl⟩
    · exact h.2 task hold
    · exact h.2 old hold
  | skipped _ _ _ _ => exact hwithout _
  | ended _ _ _ _ _ => exact hwithout _
  | _ => exact h.2

end Account

end Foreman.Engine
