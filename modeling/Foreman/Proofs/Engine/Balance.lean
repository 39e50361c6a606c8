import Foreman.Proofs.Engine.Account

namespace Foreman.Engine.Account

variable {a a' : Account} {move : Move} {slots ticket : Nat} {stage : Stage}
  {task other : Task} {tasks : List Task} {job id : JobId} {gate : Gate}

@[simp] theorem mem_without : task ∈ without tasks ticket ↔ task ∈ tasks ∧ task.ticket ≠ ticket := by
  simp [without]

@[simp] theorem staged_jobs : (staged tasks ticket stage).map Task.job = tasks.map Task.job := by
  simp only [staged, List.map_map]
  apply List.map_congr_left
  intro task _
  simp only [Function.comp_apply]
  split <;> rfl

@[simp] theorem staged_tickets :
    (staged tasks ticket stage).map Task.ticket = tasks.map Task.ticket := by
  simp only [staged, List.map_map]
  apply List.map_congr_left
  intro task _
  simp only [Function.comp_apply]
  split <;> rfl

theorem mem_staged : task ∈ staged tasks ticket stage ↔
    (task ∈ tasks ∧ task.ticket ≠ ticket) ∨
      ∃ old ∈ tasks, old.ticket = ticket ∧ task = { old with stage := stage } := by
  simp only [staged, List.mem_map]
  constructor
  · rintro ⟨old, hold, rfl⟩
    by_cases hticket : old.ticket = ticket
    · exact .inr ⟨old, hold, hticket, by rw [if_pos hticket]⟩
    · rw [if_neg hticket]
      exact .inl ⟨hold, hticket⟩
  · rintro (⟨htask, hticket⟩ | ⟨old, hold, hticket, rfl⟩)
    · exact ⟨task, htask, if_neg hticket⟩
    · exact ⟨old, hold, if_pos hticket⟩

-- A record that cannot be the one that was touched was there before.
theorem untouched {l l' : Ledger} {status : Status} (htouches : l.Touches id l')
    (hid : ∀ record, l'.get? id = some record → record.status ≠ status) {other : JobId}
    {record : Job} (hrecord : l'.get? other = some record) (hstatus : record.status = status) :
    other ≠ id ∧ l.get? other = some record := by
  have hne : other ≠ id := fun he => hid record (he ▸ hrecord) hstatus
  exact ⟨hne, htouches.others other hne ▸ hrecord⟩

namespace Balanced

theorem jobs_nodup (h : a.Balanced slots) : (a.tasks.map Task.job ++ a.lent).Nodup :=
  h.holders.nodup_iff.mp h.gate.nodup

theorem taken_eq (h : a.Balanced slots) : a.gate.taken = a.tasks.length + a.lent.length := by
  have hperm := h.holders.length_eq
  rw [List.length_append, List.length_map] at hperm
  exact h.gate.taken_eq.trans hperm

theorem mem_holders (h : a.Balanced slots) (htask : task ∈ a.tasks) :
    task.job ∈ a.gate.holders :=
  h.holders.mem_iff.mpr (List.mem_append_left _ (List.mem_map_of_mem htask))

theorem eq_of_job (h : a.Balanced slots) (htask : task ∈ a.tasks) (hother : other ∈ a.tasks)
    (he : task.job = other.job) : task = other :=
  List.inj_on_of_nodup_map (List.Nodup.of_append_left h.jobs_nodup) htask hother he

theorem eq_of_ticket (h : a.Balanced slots) (htask : task ∈ a.tasks) (hother : other ∈ a.tasks)
    (he : task.ticket = other.ticket) : task = other :=
  List.inj_on_of_nodup_map h.tickets htask hother he

theorem holders_drop (h : a.Balanced slots) (htask : task ∈ a.tasks)
    (hgate : a.gate.release? task.job = some gate) :
    gate.holders.Perm ((without a.tasks task.ticket).map Task.job ++ a.lent) := by
  have htasks : a.tasks.Perm (task :: without a.tasks task.ticket) :=
    Keyed.perm_cons_filter h.tickets htask
  have hjobs := (htasks.map Task.job).append_right a.lent
  have herase := Gate.perm_release (h.holders.trans hjobs) hgate
  rw [List.map_cons, List.cons_append, List.erase_cons_head] at herase
  exact herase

theorem admits (h : a.Balanced slots) (hadmits : a.Admits a') : a'.Balanced slots := by
  obtain ⟨requeues, hgate, hqueued⟩ := hadmits
  rename_i job gate
  have hfree : job ∉ a.gate.holders := (Gate.acquire?_eq_some_iff.mp hgate).1
  refine ⟨h.gate.acquire hgate, (Gate.acquire?_capacity hgate).trans h.capacity, ?_, ?_, ?_, ?_,
    h.distinct, ?_, ?_, h.queue.without job, ?_⟩
  · refine (Gate.perm_acquire h.holders hgate).trans ?_
    rw [List.map_append, List.append_assoc]
    exact List.perm_middle.symm
  · rw [List.map_append]
    refine List.nodup_append.mpr ⟨h.tickets, List.nodup_singleton _, ?_⟩
    intro x hx y hy
    obtain ⟨task, htask, rfl⟩ := List.mem_map.mp hx
    rw [List.mem_singleton.mp hy]
    exact Nat.ne_of_lt (h.issued task htask)
  · intro task htask
    rcases List.mem_append.mp htask with htask | htask
    · exact Nat.lt_succ_of_lt (h.issued task htask)
    · rw [List.mem_singleton.mp htask]
      exact Nat.lt_succ_self _
  · intro task htask before hstage
    rcases List.mem_append.mp htask with htask | htask
    · exact h.named task htask before hstage
    · rw [List.mem_singleton.mp htask] at hstage
      cases hstage
  · intro id record hrecord hstatus
    obtain ⟨task, htask, hbefore⟩ := h.processing id record hrecord hstatus
    exact ⟨task, List.mem_append_left _ htask, hbefore⟩
  · intro task htask before hstage
    rcases List.mem_append.mp htask with htask | htask
    · exact h.running task htask before hstage
    · rw [List.mem_singleton.mp htask] at hstage
      cases hstage
  · intro task htask hqueued
    rw [Queue.mem_order_without] at hqueued
    rcases List.mem_append.mp htask with htask | htask
    · exact h.apart task htask hqueued.1
    · exact hqueued.2 (by rw [List.mem_singleton.mp htask])

theorem touches (h : a.Balanced slots) {ledger : Ledger} (htouches : a.ledger.Touches id ledger)
    (hid : ∀ record, ledger.get? id = some record → record.status = .pending) :
    ({ a with ledger := ledger } : Account).Balanced slots :=
  { h with
    distinct := htouches.distinct h.distinct
    processing := by
      intro other record hrecord hstatus
      have hbefore := untouched htouches (fun record hfound => by simp [hid record hfound])
        hrecord hstatus
      exact h.processing other record hbefore.2 hstatus
    running := by
      intro task htask before hstage record hrecord
      by_cases he : task.job = id
      · exact .inl (hid record (he ▸ hrecord))
      · rw [htouches.others _ he] at hrecord
        exact h.running task htask before hstage record hrecord }

theorem joined (h : a.Balanced slots) (hout : id ∉ a.queue.order) (hfree : id ∉ a.gate.holders)
    (hroom : a.queue.length < a.queue.capacity) (priority : Int) :
    ({ a with queue := a.queue.joined id priority a.now } : Account).Balanced slots :=
  { h with
    queue := h.queue.joined hout hroom priority
    apart := by
      intro task htask hqueued
      rcases Queue.mem_order_joined.mp hqueued with he | hqueued
      · exact hfree (he ▸ h.mem_holders htask)
      · exact h.apart task htask hqueued }

theorem withdrawn (h : a.Balanced slots) (id : JobId) :
    ({ a with queue := a.queue.without id } : Account).Balanced slots :=
  { h with
    queue := h.queue.without id
    apart := fun task htask hqueued => h.apart task htask (Queue.mem_order_without.mp hqueued).1 }

theorem dropped (h : a.Balanced slots) (htask : task ∈ a.tasks)
    (hgate : a.gate.release? task.job = some gate) {ledger : Ledger}
    (htouches : a.ledger.Touches task.job ledger)
    (hid : ∀ record, ledger.get? task.job = some record → record.status ≠ .processing) :
    ({ a with
      gate := gate
      ledger := ledger
      tasks := without a.tasks task.ticket } : Account).Balanced slots where
  gate := h.gate.release hgate
  capacity := (Gate.release?_capacity hgate).trans h.capacity
  holders := h.holders_drop htask hgate
  tickets := h.tickets.sublist (List.filter_sublist.map _)
  issued := fun other hother => h.issued other (mem_without.mp hother).1
  named := fun other hother => h.named other (mem_without.mp hother).1
  distinct := htouches.distinct h.distinct
  processing := by
    intro id record hrecord hstatus
    obtain ⟨hne, hbefore⟩ := untouched htouches hid hrecord hstatus
    obtain ⟨other, hother, rfl, hstage⟩ := h.processing id record hbefore hstatus
    refine ⟨other, mem_without.mpr ⟨hother, fun he => hne ?_⟩, rfl, hstage⟩
    rw [h.eq_of_ticket hother htask he]
  running := by
    intro other hother before hstage record hrecord
    obtain ⟨hother, hticket⟩ := mem_without.mp hother
    have hne : other.job ≠ task.job := fun he => hticket (by rw [h.eq_of_job hother htask he])
    rw [htouches.others _ hne] at hrecord
    exact h.running other hother before hstage record hrecord
  queue := h.queue
  apart := fun other hother => h.apart other (mem_without.mp hother).1

theorem begun (h : a.Balanced slots) (htask : task ∈ a.tasks) {record : Job} {ledger : Ledger}
    (hrewrites : a.ledger.Rewrites task.job record (record.begun a.now) ledger) :
    ({ a with
      ledger := ledger
      tasks := staged a.tasks task.ticket (.running (record.begun a.now)) } :
        Account).Balanced slots where
  gate := h.gate
  capacity := h.capacity
  holders := by
    rw [staged_jobs]
    exact h.holders
  tickets := by
    rw [staged_tickets]
    exact h.tickets
  issued := by
    intro other hother
    rcases mem_staged.mp hother with ⟨hold, -⟩ | ⟨old, hold, -, rfl⟩
    · exact h.issued other hold
    · exact h.issued old hold
  named := by
    intro other hother before hstage
    rcases mem_staged.mp hother with ⟨hold, -⟩ | ⟨old, hold, hticket, rfl⟩
    · exact h.named other hold before hstage
    · obtain rfl := h.eq_of_ticket hold htask hticket
      cases hstage
      exact (Ledger.get?_mem hrewrites.after).2
  distinct := hrewrites.distinct h.distinct
  processing := by
    intro id found hfound hstatus
    by_cases hid : id = task.job
    · subst hid
      obtain rfl := hrewrites.eq_after hfound
      exact ⟨_, mem_staged.mpr (.inr ⟨task, htask, rfl, rfl⟩), rfl, _, rfl, rfl⟩
    · rw [hrewrites.others id hid] at hfound
      obtain ⟨other, hother, rfl, hstage⟩ := h.processing id found hfound hstatus
      refine ⟨other, mem_staged.mpr (.inl ⟨hother, fun he => hid ?_⟩), rfl, hstage⟩
      rw [h.eq_of_ticket hother htask he]
  running := by
    intro other hother before hstage found hfound
    by_cases hid : other.job = task.job
    · rw [hid] at hfound
      obtain rfl := hrewrites.eq_after hfound
      exact .inr rfl
    · rw [hrewrites.others _ hid] at hfound
      rcases mem_staged.mp hother with ⟨hold, -⟩ | ⟨old, hold, hticket, rfl⟩
      · exact h.running other hold before hstage found hfound
      · exact absurd (congrArg Task.job (h.eq_of_ticket hold htask hticket)) hid
  queue := h.queue
  apart := by
    intro other hother
    rcases mem_staged.mp hother with ⟨hold, -⟩ | ⟨old, hold, -, rfl⟩
    · exact h.apart other hold
    · exact h.apart old hold

theorem progressed (h : a.Balanced slots) {record : Job} {ledger : Ledger} {percent : Nat}
    (hrewrites : a.ledger.Rewrites id record { record with progress := percent } ledger) :
    ({ a with ledger := ledger } : Account).Balanced slots :=
  { h with
    distinct := hrewrites.distinct h.distinct
    processing := by
      intro other found hfound hstatus
      by_cases hid : other = id
      · subst hid
        obtain rfl := hrewrites.eq_after hfound
        obtain ⟨task, htask, hjob, before, hstage, hrecord⟩ :=
          h.processing other record hrewrites.before hstatus
        refine ⟨task, htask, hjob, before, hstage, ?_⟩
        rw [hrecord]
      · rw [hrewrites.others other hid] at hfound
        exact h.processing other found hfound hstatus
    running := by
      intro task htask before hstage found hfound
      by_cases hid : task.job = id
      · rw [hid] at hfound
        obtain rfl := hrewrites.eq_after hfound
        exact h.running task htask before hstage record (hid ▸ hrewrites.before)
      · rw [hrewrites.others _ hid] at hfound
        exact h.running task htask before hstage found hfound }

theorem lent (h : a.Balanced slots) (hgate : a.gate.acquire? job = some gate) :
    ({ a with gate := gate, lent := a.lent ++ [job] } : Account).Balanced slots :=
  { h with
    gate := h.gate.acquire hgate
    capacity := (Gate.acquire?_capacity hgate).trans h.capacity
    holders := by
      refine (Gate.perm_acquire h.holders hgate).trans ?_
      rw [← List.append_assoc]
      exact (List.perm_append_singleton job _).symm }

theorem returned (h : a.Balanced slots) (hlent : job ∈ a.lent)
    (hgate : a.gate.release? job = some gate) :
    ({ a with gate := gate, lent := a.lent.erase job } : Account).Balanced slots :=
  { h with
    gate := h.gate.release hgate
    capacity := (Gate.release?_capacity hgate).trans h.capacity
    holders := by
      -- A job whose slot is lent out has no attempt, so that the list of those stays as it is.
      have hnone : job ∉ a.tasks.map Task.job := fun hjob =>
        List.disjoint_of_nodup_append h.jobs_nodup hjob hlent
      rw [← List.erase_append_right _ hnone]
      exact Gate.perm_release h.holders hgate }

theorem ended (h : a.Balanced slots) {before : Job} {ledger : Ledger} {queue : Queue}
    (htask : task ∈ a.tasks) (hgate : a.gate.release? task.job = some gate)
    (hafter : Aftermath a task before ledger queue) :
    ({ a with
      gate := gate
      queue := queue
      ledger := ledger
      tasks := without a.tasks task.ticket } : Account).Balanced slots := by
  cases hafter with
  | stale hrecord =>
    refine h.dropped htask hgate ⟨fun _ _ => rfl, id⟩ fun record hfound => ?_
    simp [hrecord record hfound]
  | finished hrewrites _ hterminal =>
    refine h.dropped htask hgate hrewrites.toTouches (Ledger.forall_get? hrewrites.after ?_)
    intro hstatus
    rw [hstatus] at hterminal
    cases hterminal
  | retried hrewrites _ _ hout hroom =>
    have hdropped := h.dropped htask hgate hrewrites.toTouches
      (Ledger.forall_get? hrewrites.after (by simp [Job.retriedAfter]))
    refine hdropped.joined hout (fun hheld => ?_) hroom _
    exact ((Gate.mem_holders_release h.gate hgate).mp hheld).1 rfl

-- Whatever a move does, the accounts stay in balance.
theorem step (h : a.Balanced slots) (hstep : Step move a a') : a'.Balanced slots := by
  cases hstep with
  | quiet hnow hissued =>
    exact { h with
      issued := fun task htask => Nat.lt_of_lt_of_le (h.issued task htask) hissued
      queue := h.queue.later hnow }
  | lent hgate => exact h.lent hgate
  | taken hgate _ => exact (h.lent hgate).withdrawn _
  | returned _ hlent hgate => exact h.returned hlent hgate
  | admitted hadmits =>
    induction hadmits with
    | refl => exact h
    | tail _ hadmits ih => exact ih.admits hadmits
  | begun htask _ _ hrewrites => exact h.begun htask hrewrites
  | skipped htask hstage _ hgate =>
    refine h.dropped htask hgate ⟨fun _ _ => rfl, id⟩ fun record hrecord hstatus => ?_
    -- A job in progress has an attempt that goes on, and no second one that is to begin.
    obtain ⟨other, hother, hjob, before, hrunning, -⟩ := h.processing _ record hrecord hstatus
    obtain rfl := h.eq_of_job hother htask hjob
    cases hstage.symm.trans hrunning
  | progressed percent hrewrites => exact h.progressed hrewrites
  | ended htask _ _ hgate hafter => exact h.ended htask hgate hafter
  | created _ htouches hjob hpending =>
    exact h.touches htouches (Ledger.forall_get? hjob hpending)
  | submitted _ htouches hjob hpending _ hout hfree hroom =>
    have htouched := h.touches htouches (Ledger.forall_get? hjob hpending)
    exact htouched.joined hout hfree hroom _
  | refused _ htouches hjob => exact h.touches htouches (by simp [hjob])
  | prioritized priority hpending hrewrites =>
    exact h.touches hrewrites.toTouches (Ledger.forall_get? hrewrites.after hpending)
  | queued priority hpending hrewrites hout hfree hroom =>
    have htouched := h.touches hrewrites.toTouches (Ledger.forall_get? hrewrites.after hpending)
    exact htouched.joined hout hfree hroom _
  | withdrawn _ _ _ => exact h.withdrawn _
  | discarded _ _ _ htouches hafter => exact (h.touches htouches (by simp [hafter])).withdrawn _
  | evicted hsheds =>
    exact { h with
      distinct := hsheds.distinct
      processing := fun id record hrecord =>
        h.processing id record (hsheds.known id record hrecord)
      running := fun task htask before hstage record hrecord =>
        h.running task htask before hstage record (hsheds.known _ record hrecord) }

end Balanced

end Foreman.Engine.Account
