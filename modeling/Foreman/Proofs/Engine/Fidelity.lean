import Foreman.Proofs.Engine.Custody

namespace Foreman

-- The job can be tried: it has not started or is to be tried again, and its priority is known.
def Ledger.Ready (l : Ledger) (id : JobId) : Prop :=
  ∃ job, l.get? id = some job ∧ job.status.canBecome .processing = true ∧ job.priority.isSome = true

namespace Engine.Account

-- As long as no new job takes the name of another, an attempt that goes on is at a job in
-- progress, and whatever waits in the queue or comes from there can be tried.
structure Faithful (a : Account) : Prop where
  running : ∀ task ∈ a.tasks, ∀ before, task.stage = .running before →
    ∃ job, a.ledger.get? task.job = some job ∧ job.status = .processing
  starting : ∀ task ∈ a.tasks, task.stage = .starting → task.requeues = true →
    a.ledger.Ready task.job
  queued : ∀ id ∈ a.queue.order, a.ledger.Ready id
  priority : ∀ task ∈ a.tasks, ∀ before, task.stage = .running before → task.requeues = true →
    before.priority.isSome = true

variable {a a' : Account} {move : Move} {slots : Nat} {task other : Task} {id : JobId}
  {ledger : Ledger} {job : Job} {gate : Gate}

theorem ready_of_touches (htouches : a.ledger.Touches id ledger) {other : JobId}
    (hne : other ≠ id) (h : a.ledger.Ready other) : ledger.Ready other := by
  obtain ⟨job, hjob, hcan, hpriority⟩ := h
  exact ⟨job, (htouches.others other hne).trans hjob, hcan, hpriority⟩

theorem ready_of_sheds (hsheds : a.ledger.Sheds ledger) (h : a.ledger.Ready id) :
    ledger.Ready id := by
  obtain ⟨job, hjob, hcan, hpriority⟩ := h
  refine ⟨job, hsheds.kept id job hjob ?_, hcan, hpriority⟩
  cases hover : job.status.isTerminal with
  | false => rfl
  | true =>
    rw [Status.canBecome_of_isTerminal hover] at hcan
    cases hcan

namespace Faithful

-- The ledger may change where there is neither an attempt nor an entry in the queue.
theorem touched (h : a.Faithful) (htouches : a.ledger.Touches id ledger)
    (htasks : ∀ task ∈ a.tasks, task.stage = .starting → task.requeues = true → task.job ≠ id)
    (hrunning : ∀ task ∈ a.tasks, ∀ before, task.stage = .running before → task.job ≠ id)
    (hqueued : id ∉ a.queue.order) : ({ a with ledger := ledger } : Account).Faithful where
  running := by
    intro task htask before hstage
    obtain ⟨job, hjob, hstatus⟩ := h.running task htask before hstage
    exact ⟨job, (htouches.others _ (hrunning task htask before hstage)).trans hjob, hstatus⟩
  starting := fun task htask hstage hrequeues =>
    ready_of_touches htouches (htasks task htask hstage hrequeues)
      (h.starting task htask hstage hrequeues)
  queued := fun other hother =>
    ready_of_touches htouches (fun he => hqueued (he ▸ hother)) (h.queued other hother)
  priority := h.priority

-- A name that is not in the ledger is not that of any attempt that counts on its job.
theorem fresh (h : a.Faithful) (hfresh : a.ledger.contains id = false)
    (htouches : a.ledger.Touches id ledger) : ({ a with ledger := ledger } : Account).Faithful := by
  have hnone : a.ledger.get? id = none := Ledger.contains_eq_false_iff.mp hfresh
  have hready : ¬ a.ledger.Ready id := by
    rintro ⟨job, hjob, -⟩
    rw [hnone] at hjob
    cases hjob
  refine h.touched htouches ?_ ?_ (fun hqueued => hready (h.queued id hqueued))
  · rintro task htask hstage hrequeues rfl
    exact hready (h.starting task htask hstage hrequeues)
  · rintro task htask before hstage rfl
    obtain ⟨job, hjob, -⟩ := h.running task htask before hstage
    rw [hnone] at hjob
    cases hjob

-- A record may change as long as its status stays and its priority is not lost.
theorem rewritten (h : a.Faithful) {next : Job} (hrewrites : a.ledger.Rewrites id job next ledger)
    (hstatus : next.status = job.status)
    (hpriority : job.priority.isSome = true → next.priority.isSome = true) :
    ({ a with ledger := ledger } : Account).Faithful := by
  have hready : ∀ other, a.ledger.Ready other → ledger.Ready other := by
    rintro other ⟨found, hfound, hcan, hsome⟩
    by_cases he : other = id
    · subst he
      obtain rfl := hrewrites.eq_before hfound
      exact ⟨next, hrewrites.after, hstatus ▸ hcan, hpriority hsome⟩
    · exact ⟨found, (hrewrites.others other he).trans hfound, hcan, hsome⟩
  refine ⟨?_, ?_, ?_, h.priority⟩
  · intro task htask before hstage
    obtain ⟨found, hfound, hprocessing⟩ := h.running task htask before hstage
    by_cases he : task.job = id
    · rw [he] at hfound ⊢
      obtain rfl := hrewrites.eq_before hfound
      exact ⟨next, hrewrites.after, hstatus.trans hprocessing⟩
    · exact ⟨found, (hrewrites.others _ he).trans hfound, hprocessing⟩
  · exact fun task htask hstage hrequeues => hready _ (h.starting task htask hstage hrequeues)
  · exact fun other hother => hready other (h.queued other hother)

theorem withdrawn (h : a.Faithful) (id : JobId) :
    ({ a with queue := a.queue.without id } : Account).Faithful :=
  { h with queued := fun other hother => h.queued other (Queue.mem_order_without.mp hother).1 }

theorem joined (h : a.Faithful) (hready : a.ledger.Ready id) (priority : Int) :
    ({ a with queue := a.queue.joined id priority a.now } : Account).Faithful :=
  { h with
    queued := by
      intro other hother
      rcases Queue.mem_order_joined.mp hother with rfl | hother
      · exact hready
      · exact h.queued other hother }

theorem dropped (h : a.Faithful) (gate : Gate) (ticket : Nat) :
    ({ a with gate := gate, tasks := without a.tasks ticket } : Account).Faithful where
  running := fun task htask => h.running task (mem_without.mp htask).1
  starting := fun task htask => h.starting task (mem_without.mp htask).1
  queued := h.queued
  priority := fun task htask => h.priority task (mem_without.mp htask).1

theorem admits (h : a.Faithful) (hadmits : a.Admits a') : a'.Faithful := by
  obtain ⟨requeues, -, hqueued⟩ := hadmits
  refine ⟨?_, ?_, fun other hother => h.queued other (Queue.mem_order_without.mp hother).1, ?_⟩
  · intro task htask before hstage
    rcases List.mem_append.mp htask with htask | htask
    · exact h.running task htask before hstage
    · rw [List.mem_singleton.mp htask] at hstage
      cases hstage
  · intro task htask hstage hrequeues
    rcases List.mem_append.mp htask with htask | htask
    · exact h.starting task htask hstage hrequeues
    · obtain rfl := List.mem_singleton.mp htask
      exact h.queued _ (hqueued hrequeues)
  · intro task htask before hstage
    rcases List.mem_append.mp htask with htask | htask
    · exact h.priority task htask before hstage
    · rw [List.mem_singleton.mp htask] at hstage
      cases hstage

theorem begun (h : a.Faithful) (hbalanced : a.Balanced slots) (htask : task ∈ a.tasks)
    (hstage : task.stage = .starting)
    (hrewrites : a.ledger.Rewrites task.job job (job.begun a.now) ledger) :
    ({ a with
      ledger := ledger
      tasks := staged a.tasks task.ticket (.running (job.begun a.now)) } :
        Account).Faithful := by
  have hother : ∀ other ∈ a.tasks, other.ticket ≠ task.ticket → other.job ≠ task.job :=
    fun other hother hticket he => hticket (by rw [hbalanced.eq_of_job hother htask he])
  refine ⟨?_, ?_, ?_, ?_⟩
  · intro other hmem before hrunning
    rcases mem_staged.mp hmem with ⟨hold, hticket⟩ | ⟨old, hold, hticket, rfl⟩
    · obtain ⟨found, hfound, hstatus⟩ := h.running other hold before hrunning
      exact ⟨found, (hrewrites.others _ (hother other hold hticket)).trans hfound, hstatus⟩
    · obtain rfl := hbalanced.eq_of_ticket hold htask hticket
      exact ⟨_, hrewrites.after, rfl⟩
  · intro other hmem hstarting hrequeues
    rcases mem_staged.mp hmem with ⟨hold, hticket⟩ | ⟨old, hold, hticket, rfl⟩
    · exact ready_of_touches hrewrites.toTouches (hother other hold hticket)
        (h.starting other hold hstarting hrequeues)
    · cases hstarting
  · intro id hid
    refine ready_of_touches hrewrites.toTouches (fun he => ?_) (h.queued id hid)
    exact hbalanced.apart task htask (he ▸ hid)
  · intro other hmem before hrunning hrequeues
    rcases mem_staged.mp hmem with ⟨hold, -⟩ | ⟨old, hold, hticket, rfl⟩
    · exact h.priority other hold before hrunning hrequeues
    · obtain rfl := hbalanced.eq_of_ticket hold htask hticket
      obtain ⟨found, hfound, -, hsome⟩ := h.starting old htask hstage hrequeues
      obtain rfl := hrewrites.eq_before hfound
      cases hrunning
      exact hsome

-- The end of an attempt concerns its own job alone, which is not in the queue before.
theorem ended (h : a.Faithful) (hbalanced : a.Balanced slots) {before : Job} {queue : Queue}
    (htask : task ∈ a.tasks) (hstage : task.stage = .running before)
    (hafter : Aftermath a task before ledger queue) :
    ({ a with
      gate := gate
      queue := queue
      ledger := ledger
      tasks := without a.tasks task.ticket } : Account).Faithful := by
  have hdropped := h.dropped gate task.ticket
  have hother : ∀ other ∈ without a.tasks task.ticket, other.job ≠ task.job := by
    intro other hmem he
    obtain ⟨hmem, hticket⟩ := mem_without.mp hmem
    exact hticket (by rw [hbalanced.eq_of_job hmem htask he])
  have htouched : ∀ {ledger : Ledger}, a.ledger.Touches task.job ledger →
      ({ a with
        gate := gate
        ledger := ledger
        tasks := without a.tasks task.ticket } : Account).Faithful := fun htouches =>
    hdropped.touched htouches (fun other hmem _ _ => hother other hmem)
      (fun other hmem _ _ => hother other hmem) (hbalanced.apart task htask)
  cases hafter with
  | stale _ => exact hdropped
  | finished hrewrites _ _ => exact htouched hrewrites.toTouches
  | retried hrewrites hstatus hrequeues _ _ =>
    refine (htouched hrewrites.toTouches).joined ⟨_, hrewrites.after, rfl, ?_⟩ _
    have hsame := hbalanced.eq_before htask hstage hrewrites.before hstatus
    have hpriority := h.priority task htask before hstage hrequeues
    rw [hsame]
    exact hpriority

-- Whatever a move does, it leaves the job of each attempt alone that goes on.
theorem step (h : a.Faithful) (hbalanced : a.Balanced slots) (hstep : Step move a a')
    (hfresh : ∀ id, move.names? = some id → a.ledger.contains id = false) : a'.Faithful := by
  cases hstep with
  | quiet _ _ => exact { h with }
  | lent _ => exact { h with }
  | taken _ _ => exact { h.withdrawn _ with }
  | returned _ _ _ => exact { h with }
  | admitted hadmits =>
    clear hfresh hbalanced
    induction hadmits with
    | refl => exact h
    | tail _ hadmits ih => exact ih.admits hadmits
  | begun htask hstage _ hrewrites => exact h.begun hbalanced htask hstage hrewrites
  | skipped _ _ _ _ => exact h.dropped _ _
  | progressed percent hrewrites => exact h.rewritten hrewrites rfl id
  | ended htask hstage _ _ hafter => exact h.ended hbalanced htask hstage hafter
  | created hmove htouches _ _ => exact h.fresh (hfresh _ hmove) htouches
  | submitted hmove htouches hjob hpending hpriority _ _ _ =>
    refine (h.fresh (hfresh _ hmove) htouches).joined ⟨_, hjob, ?_, ?_⟩ _
    · rw [hpending]
      rfl
    · rw [hpriority]
      rfl
  | refused hmove htouches _ => exact h.fresh (hfresh _ hmove) htouches
  | prioritized priority _ hrewrites => exact h.rewritten hrewrites rfl (fun _ => rfl)
  | queued priority hpending hrewrites _ _ _ =>
    refine (h.rewritten hrewrites rfl (fun _ => rfl)).joined ⟨_, hrewrites.after, ?_, rfl⟩ _
    simp only [hpending]
    rfl
  | withdrawn _ _ _ => exact h.withdrawn _
  | discarded hqueued _ _ htouches _ =>
    have hapart : ∀ task ∈ a.tasks, task.job ≠ _ := fun task htask he =>
      hbalanced.apart task htask (he ▸ hqueued)
    exact (h.withdrawn _).touched htouches (fun task htask _ _ => hapart task htask)
      (fun task htask _ _ => hapart task htask)
      (fun hin => (Queue.mem_order_without.mp hin).2 rfl)
  | evicted hsheds =>
    refine ⟨?_, ?_, fun id hid => ready_of_sheds hsheds (h.queued id hid), h.priority⟩
    · intro task htask before hstage
      obtain ⟨job, hjob, hstatus⟩ := h.running task htask before hstage
      exact ⟨job, hsheds.kept _ job hjob (by rw [hstatus]; rfl), hstatus⟩
    · exact fun task htask hstage hrequeues =>
        ready_of_sheds hsheds (h.starting task htask hstage hrequeues)

end Faithful

theorem faithful_initial (b : Blueprint) (around : Surroundings) :
    ((b.initial around).account []).Faithful := by
  constructor <;> simp [State.account, Blueprint.initial, Queue.order, Queue.ofCapacity]

-- An attempt that goes on does so until it is told to end.
theorem Step.mem_tasks (hstep : Step move a a') (hbalanced : a.Balanced slots) {before : Job}
    (htask : task ∈ a.tasks) (hstage : task.stage = .running before)
    (hmove : move.ends? ≠ some task.ticket) : task ∈ a'.tasks := by
  have hdropped : ∀ other ∈ a.tasks, other.ticket ≠ task.ticket →
      task ∈ without a.tasks other.ticket := fun other _ hne => mem_without.mpr ⟨htask, hne.symm⟩
  have hstarting : ∀ other ∈ a.tasks, other.stage = .starting → other.ticket ≠ task.ticket := by
    intro other hother hstart he
    obtain rfl := hbalanced.eq_of_ticket hother htask he
    cases hstage.symm.trans hstart
  cases hstep with
  | admitted hadmits =>
    clear hdropped hstarting hbalanced hmove
    induction hadmits with
    | refl => exact htask
    | tail _ hadmits ih =>
      obtain ⟨requeues, -, -⟩ := hadmits
      exact List.mem_append_left _ ih
  | begun hother hstart _ _ =>
    exact mem_staged.mpr (.inl ⟨htask, (hstarting _ hother hstart).symm⟩)
  | skipped hother hstart _ _ => exact hdropped _ hother (hstarting _ hother hstart)
  | ended hother _ hends _ _ => exact hdropped _ hother (fun he => hmove (he ▸ hends))
  | _ => exact htask

end Engine.Account

namespace Engine

open Account

variable {b : Blueprint} {around : Surroundings} {t : Timeline} {l : Loans} {moves : List Move}
  {slots ticket : Nat}

structure Loans.Regular (slots : Nat) (l : Loans) : Prop where
  known : l.state.Known
  balanced : l.account.Balanced slots
  faithful : l.account.Faithful

theorem Loans.Regular.make {move : Move} (h : l.Regular slots) (hreturns : l.ReturnsOwn move)
    (hfresh : l.state.NamesAfresh move) : (l.make move).Regular slots := by
  obtain ⟨hstep, hknown⟩ := make_step h.known h.balanced hreturns
  exact ⟨hknown, h.balanced.step hstep, h.faithful.step h.balanced hstep hfresh⟩

theorem Loans.Lawful.regular (hlawful : l.Lawful moves) (h : l.Regular slots) :
    (l.run moves).Regular slots := by
  refine Follows.invariant (Regular slots) ?_ hlawful h
  rintro l move h ⟨hreturns, hfresh⟩
  exact h.make hreturns hfresh

theorem Blueprint.regular_of_build (hbuild : b.build around = .ok t) :
    (Loans.ofState t.state).Regular (b.slots around) := by
  have hstate := state_of_build hbuild
  exact ⟨hstate ▸ known_initial b around, hstate ▸ balanced_initial b around,
    hstate ▸ faithful_initial b around⟩

-- An attempt that goes on does so all along a run that does not end it.
theorem Loans.Lawful.mem_tasks {task : Task} {before : Job} (hlawful : l.Lawful moves)
    (h : l.Regular slots) (htask : task ∈ l.state.tasks) (hstage : task.stage = .running before)
    (hmoves : ∀ move ∈ moves, move.ends? ≠ some task.ticket) :
    task ∈ (l.run moves).state.tasks := by
  induction moves generalizing l with
  | nil => exact htask
  | cons move moves ih =>
    obtain ⟨hallowed, hlawful⟩ := hlawful
    obtain ⟨hstep, -⟩ := make_step h.known h.balanced hallowed.1
    have hmem := hstep.mem_tasks h.balanced htask hstage (hmoves move List.mem_cons_self)
    exact ih hlawful (h.make hallowed.1 hallowed.2) hmem
      (fun other hother => hmoves other (List.mem_cons_of_mem _ hother))

end Engine

end Foreman
