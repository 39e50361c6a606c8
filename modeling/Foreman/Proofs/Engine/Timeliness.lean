import Foreman.Proofs.Engine.Dispatchable
import Foreman.Proofs.Engine.Interleavings

namespace Foreman.Engine.Account

variable {a a' : Account} {move : Move} {slots : Nat} {tails : List Tail} {tail : Tail}
  {task other : Task} {ledger : Ledger} {id : JobId}

-- What waits can be tried, in the queue or handed out for an attempt that is to begin. A job does
-- not wait in the queue while an attempt at it has a slot.
structure Timely (tails : List Tail) (a : Account) : Prop where
  queued : ∀ id ∈ a.queue.order, a.ledger.canStart id = true
  handed : ∀ task ∈ a.tasks, task.requeues = true → task.stage = .starting →
    Tail.spares tails task.ticket = true ∧ a.ledger.canStart task.job = true
  apart : ∀ task ∈ holding a.tasks tails, task.job ∉ a.queue.order
  named : ∀ task ∈ a.tasks, ∀ job, task.stage = .running job → job.id = task.job

namespace Timely

-- The ledger may change as long as what could be tried still can be.
theorem kept (h : a.Timely tails)
    (hkept : ∀ id, a.ledger.canStart id = true → ledger.canStart id = true) :
    ({ a with ledger := ledger } : Account).Timely tails :=
  { h with
    queued := fun id hid => hkept id (h.queued id hid)
    handed := fun task htask hrequeues hstage =>
      (h.handed task htask hrequeues hstage).imp_right (hkept task.job) }

theorem touched (h : a.Timely tails) (htouches : a.ledger.Touches id ledger)
    (hqueued : id ∉ a.queue.order)
    (hhanded : ∀ task ∈ a.tasks, task.requeues = true → task.stage = .starting → task.job ≠ id) :
    ({ a with ledger := ledger } : Account).Timely tails :=
  { h with
    queued := by
      intro other hother
      rw [htouches.canStart (fun he => hqueued (he ▸ hother))]
      exact h.queued other hother
    handed := by
      intro task htask hrequeues hstage
      rw [htouches.canStart (hhanded task htask hrequeues hstage)]
      exact h.handed task htask hrequeues hstage }

-- Nobody counts on a job that is not in the ledger.
theorem fresh (h : a.Timely tails) (hfresh : a.ledger.contains id = false)
    (htouches : a.ledger.Touches id ledger) :
    ({ a with ledger := ledger } : Account).Timely tails := by
  have hnot : ¬ a.ledger.canStart id = true := by
    intro hcan
    obtain ⟨job, hjob, -⟩ := Ledger.canStart_iff.mp hcan
    cases (Ledger.contains_eq_false_iff.mp hfresh).symm.trans hjob
  refine h.touched htouches (fun hqueued => hnot (h.queued id hqueued)) ?_
  rintro task htask hrequeues hstage rfl
  exact hnot (h.handed task htask hrequeues hstage).2

theorem withdrawn (h : a.Timely tails) (id : JobId) :
    ({ a with queue := a.queue.without id } : Account).Timely tails :=
  { h with
    queued := fun other hother => h.queued other (Queue.mem_order_without.mp hother).1
    apart := fun task htask hqueued => h.apart task htask (Queue.mem_order_without.mp hqueued).1 }

theorem joined (h : a.Timely tails) (hshared : a.Shared slots tails)
    (hcan : a.ledger.canStart id = true) (hfree : id ∉ a.gate.holders) (priority : Int) :
    ({ a with queue := a.queue.joined id priority a.now } : Account).Timely tails :=
  { h with
    queued := by
      intro other hother
      rcases Queue.mem_order_joined.mp hother with rfl | hother
      · exact hcan
      · exact h.queued other hother
    apart := by
      intro task htask hqueued
      rcases Queue.mem_order_joined.mp hqueued with rfl | hqueued
      · exact hfree (hshared.mem_holders htask)
      · exact h.apart task htask hqueued }

theorem admits (h : a.Timely tails) (hshared : a.Shared slots tails) (hadmits : a.Admits a') :
    a'.Timely tails := by
  obtain ⟨requeues, -, hqueued⟩ := hadmits
  refine ⟨fun other hother => h.queued other (Queue.mem_order_without.mp hother).1, ?_, ?_, ?_⟩
  · intro task htask hrequeues hstage
    rcases List.mem_append.mp htask with htask | htask
    · exact h.handed task htask hrequeues hstage
    · obtain rfl := List.mem_singleton.mp htask
      exact ⟨hshared.spares_issued, h.queued _ (hqueued hrequeues)⟩
  · intro task htask hwaits
    obtain ⟨htask, hholds⟩ := List.mem_filter.mp htask
    obtain ⟨hwaits, hne⟩ := Queue.mem_order_without.mp hwaits
    rcases List.mem_append.mp htask with htask | htask
    · exact h.apart task (List.mem_filter.mpr ⟨htask, hholds⟩) hwaits
    · exact hne (by rw [List.mem_singleton.mp htask])
  · intro task htask job hstage
    rcases List.mem_append.mp htask with htask | htask
    · exact h.named task htask job hstage
    · rw [List.mem_singleton.mp htask] at hstage
      cases hstage

-- A job in the queue is not that of an attempt that has been handed out.
theorem ne_of_queued (h : a.Timely tails) (hqueued : id ∈ a.queue.order) (htask : task ∈ a.tasks)
    (hrequeues : task.requeues = true) (hstage : task.stage = .starting) : task.job ≠ id := by
  rintro rfl
  have hspared := (h.handed task htask hrequeues hstage).1
  exact h.apart task (mem_holding htask hspared) hqueued

-- What leaves the attempts there are as they are does no harm.
theorem step (h : a.Timely tails) (hshared : a.Shared slots tails) (hstep : Step move a a')
    (hkept : a.tasks <+: a'.tasks)
    (hfresh : ∀ id, move.names? = some id → a.ledger.contains id = false) : a'.Timely tails := by
  cases hstep with
  | quiet _ _ => exact { h with }
  | lent _ => exact { h with }
  | taken _ _ => exact { h.withdrawn _ with }
  | returned _ _ _ => exact { h with }
  | admitted hadmits =>
    clear hkept hfresh
    suffices hboth : a'.Shared slots tails ∧ a'.Timely tails from hboth.2
    induction hadmits with
    | refl => exact ⟨hshared, h⟩
    | tail _ hadmits ih => exact ⟨ih.1.admits hadmits, ih.2.admits ih.1 hadmits⟩
  | @begun task job ledger htask hstage _ _ =>
    have hsame : staged a.tasks task.ticket (.running (job.begun a.now)) = a.tasks :=
      (hkept.eq_of_length (by simp [staged])).symm
    have hmem : { task with stage := .running (job.begun a.now) } ∈ a.tasks :=
      hsame ▸ mem_staged.mpr (.inr ⟨task, htask, rfl, rfl⟩)
    rw [← hshared.eq_of_ticket hmem htask rfl] at hstage
    cases hstage
  | skipped htask _ _ _ => exact absurd hkept (hshared.not_prefix_without htask)
  | progressed percent hrewrites =>
    exact h.kept fun id hcan => (hrewrites.canStart rfl).trans hcan
  | ended htask _ _ _ _ => exact absurd hkept (hshared.not_prefix_without htask)
  | created hmove htouches _ _ => exact h.fresh (hfresh _ hmove) htouches
  | submitted hmove htouches hjob hpending _ _ hfree _ =>
    have hcan := Ledger.canStart_iff.mpr ⟨_, hjob, by rw [hpending]; rfl⟩
    exact (h.fresh (hfresh _ hmove) htouches).joined (hshared.of_same rfl rfl le_rfl rfl) hcan
      hfree _
  | refused hmove htouches _ => exact h.fresh (hfresh _ hmove) htouches
  | prioritized priority _ hrewrites =>
    exact h.kept fun id hcan => (hrewrites.canStart rfl).trans hcan
  | queued priority hpending hrewrites _ hfree _ =>
    have hcan := Ledger.canStart_iff.mpr ⟨_, hrewrites.after, by rw [hpending]; rfl⟩
    exact (h.kept fun id hcan => (hrewrites.canStart rfl).trans hcan).joined
      (hshared.of_same rfl rfl le_rfl rfl) hcan hfree _
  | withdrawn _ _ _ => exact h.withdrawn _
  | discarded hqueued _ _ htouches _ =>
    refine (h.withdrawn _).touched htouches (fun hin => (Queue.mem_order_without.mp hin).2 rfl) ?_
    exact fun task htask hrequeues hstage => h.ne_of_queued hqueued htask hrequeues hstage
  | evicted hsheds => exact h.kept fun id hcan => hsheds.canStart hcan

-- An attempt that has been handed out is the only one at its job that has a slot.
theorem ne_of_holding (h : a.Timely tails) (hshared : a.Shared slots tails)
    (htask : task ∈ holding a.tasks tails) (hother : other ∈ a.tasks)
    (hrequeues : other.requeues = true) (hstage : other.stage = .starting) (hne : other ≠ task) :
    other.job ≠ task.job := by
  have hspared := (h.handed other hother hrequeues hstage).1
  exact fun he => hne (hshared.eq_of_job (mem_holding hother hspared) htask he)

theorem begun (h : a.Timely tails) (hshared : a.Shared slots tails) (htask : task ∈ a.tasks)
    (hspared : Tail.spares tails task.ticket = true) {job : Job}
    (hrewrites : a.ledger.Rewrites task.job job (job.begun a.now) ledger) :
    ({ a with
      ledger := ledger
      tasks := staged a.tasks task.ticket (.running (job.begun a.now)) } :
        Account).Timely tails := by
  have hholding := mem_holding htask hspared
  refine ⟨?_, ?_, ?_, ?_⟩
  · intro id hid
    rw [hrewrites.toTouches.canStart (fun he => h.apart task hholding (he ▸ hid))]
    exact h.queued id hid
  · intro other hother hrequeues hstage
    obtain ⟨hother, hticket⟩ | ⟨old, -, -, rfl⟩ := mem_staged.mp hother
    · have hne : other ≠ task := fun he => hticket (he ▸ rfl)
      rw [hrewrites.toTouches.canStart
        (h.ne_of_holding hshared hholding hother hrequeues hstage hne)]
      exact h.handed other hother hrequeues hstage
    · cases hstage
  · intro other hother
    obtain ⟨hother, hholds⟩ := List.mem_filter.mp hother
    obtain ⟨hother, -⟩ | ⟨old, hold, -, rfl⟩ := mem_staged.mp hother
    · exact h.apart other (List.mem_filter.mpr ⟨hother, hholds⟩)
    · exact h.apart old (List.mem_filter.mpr ⟨hold, hholds⟩)
  · intro other hother record hstage
    obtain ⟨hother, -⟩ | ⟨old, hold, hticket, rfl⟩ := mem_staged.mp hother
    · exact h.named other hother record hstage
    · obtain rfl := hshared.eq_of_ticket hold htask hticket
      cases hstage
      exact (Ledger.get?_mem hrewrites.before).2

theorem ends (h : a.Timely tails) (hshared : a.Shared slots tails) (htask : task ∈ a.tasks)
    (hnot : task.requeues = true → task.stage ≠ .starting) (attempt : Nat)
    (sequel : State.Sequel) :
    a.Timely (tails ++ [⟨task.ticket, task.job, attempt, .slot sequel⟩]) :=
  { h with
    handed := by
      intro other hother hrequeues hstage
      obtain ⟨hspared, hcan⟩ := h.handed other hother hrequeues hstage
      refine ⟨?_, hcan⟩
      have hne : task.ticket ≠ other.ticket := by
        intro he
        obtain rfl := hshared.eq_of_ticket htask hother he
        exact hnot hrequeues hstage
      simpa [Tail.spares, hne] using hspared
    apart := by
      rw [holding_ends]
      exact h.apart }

-- The result of an attempt concerns its own job, which nobody else counts on.
theorem settled (h : a.Timely tails) (hshared : a.Shared slots tails) (htask : task ∈ a.tasks)
    (hspared : Tail.spares tails task.ticket = true) {before : Job}
    (hstage : task.stage = .running before) (htouches : a.ledger.Touches task.job ledger) :
    ({ a with ledger := ledger } : Account).Timely tails := by
  have hholding := mem_holding htask hspared
  refine h.touched htouches (h.apart task hholding) fun other hother hrequeues hstarting => ?_
  refine h.ne_of_holding hshared hholding hother hrequeues hstarting fun he => ?_
  rw [he, hstage] at hstarting
  cases hstarting

theorem advanced (h : a.Timely tails) (hshared : a.Shared slots tails) (htail : tail ∈ tails)
    {rest : Rest} (hslot : rest.hasSlot = false) :
    a.Timely (Tail.advanced tails tail.ticket rest) :=
  { h with
    handed := by
      intro task htask hrequeues hstage
      rw [Tail.spares_advanced]
      exact h.handed task htask hrequeues hstage
    apart := by
      intro task htask
      obtain ⟨htask, hholds⟩ := List.mem_filter.mp htask
      refine h.apart task (List.mem_filter.mpr ⟨htask, ?_⟩)
      by_cases hticket : task.ticket = tail.ticket
      · rw [hticket, Tail.holds_advanced_self hshared.single htail, hslot] at hholds
        cases hholds
      · rw [Tail.holds_advanced_of_ne hticket] at hholds
        exact hholds }

theorem closes (h : a.Timely tails) (ticket : Nat) :
    ({ a with tasks := without a.tasks ticket } : Account).Timely (Tail.without tails ticket) where
  queued := h.queued
  handed := by
    intro task htask hrequeues hstage
    obtain ⟨htask, hne⟩ := mem_without.mp htask
    rw [Tail.spares_without_of_ne hne]
    exact h.handed task htask hrequeues hstage
  apart := by
    intro task htask
    obtain ⟨htask, hholds⟩ := List.mem_filter.mp htask
    obtain ⟨htask, hne⟩ := mem_without.mp htask
    rw [Tail.holds_without_of_ne hne] at hholds
    exact h.apart task (List.mem_filter.mpr ⟨htask, hholds⟩)
  named := fun task htask => h.named task (mem_without.mp htask).1

end Timely

end Foreman.Engine.Account
