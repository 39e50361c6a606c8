import Foreman.Proofs.Engine.Fidelity
import Foreman.Proofs.Registry

namespace Foreman.Engine

-- What an engine keeps about its jobs: where they stand and wait, the attempts at them and how
-- those went, and which files are theirs.
structure Annals where
  queue : Queue
  ledger : Ledger
  registry : Registry
  files : Tree
  tasks : List Task
  tally : Tally
  reported : List AttemptRecord
  evicted : List JobId

def State.annals (s : State) : Annals where
  queue := s.queue
  ledger := s.ledger
  registry := s.registry
  files := s.files
  tasks := s.tasks
  tally := s.tally
  reported := s.audit.reported
  evicted := s.evicted

namespace State

-- The job for which a move calls the operation: an attempt at it begins.
def calls? (s : State) : Move → Option JobId
  | .beginTask ticket => (s.task? ticket).bind fun task =>
    match task.stage, s.ledger.startAttempt task.job s.now with
    | .starting, .ok _ => some task.job
    | _, _ => none
  | _ => none

-- Whether files are deleted in a move: in a sweep that is no dry run, or in upkeep with a sweep.
def sweeps (s : State) : Move → Bool
  | .sweep dryRun => !dryRun
  | .maintain => s.upkeep.any fun upkeep =>
    upkeep.due ≤ s.now && s.tidied.isSweepDue upkeep.swept
  | _ => false

end State

namespace Annals

-- The dispatcher takes a job out of the queue for an attempt.
inductive Dispatches (a : Annals) : Annals → Prop
  | dispatches {job} (ticket : Nat) (hqueued : job ∈ a.queue.order) :
      Dispatches a { a with
        queue := a.queue.without job
        tasks := a.tasks ++ [⟨ticket, job, true, .starting⟩] }

-- Everything that a move can write down, as long as new jobs have new names, and the job for which
-- it calls the operation.
inductive Writes (s : State) (move : Move) : Option JobId → Annals → Prop
  | nothing : Writes s move none s.annals
  | created {id} (params : Params) (maxRetries : Nat) (hmove : move.names? = some id)
      (hfresh : s.ledger.get? id = none) :
      Writes s move none { s.annals with ledger := (s.ledger.create id params maxRetries s.now).2 }
  | submitted {id job ledger} {priority : Int} (hmove : move.names? = some id)
      (hfresh : s.ledger.get? id = none) (htouches : s.ledger.Touches id ledger)
      (hjob : ledger.get? id = some { job with priority := some priority })
      (hnew : ∃ params maxRetries, job = Job.fresh id params maxRetries s.now)
      (hout : id ∉ s.queue.order) :
      Writes s move none { s.annals with
        ledger := ledger
        queue := s.queue.joined id priority s.now }
  | refused {id ledger} (hmove : move.names? = some id) (hfresh : s.ledger.get? id = none)
      (htouches : s.ledger.Touches id ledger) (hnone : ledger.get? id = none) :
      Writes s move none { s.annals with ledger := ledger }
  | prioritized {id job ledger} (priority : Int) (hmove : move = .enqueue id priority)
      (hpending : job.status = .pending)
      (hrewrites : s.ledger.Rewrites id job { job with priority := some priority } ledger) :
      Writes s move none { s.annals with ledger := ledger }
  | queued {id job ledger} (priority : Int) (hmove : move = .enqueue id priority)
      (hpending : job.status = .pending)
      (hrewrites : s.ledger.Rewrites id job { job with priority := some priority } ledger)
      (hout : id ∉ s.queue.order) :
      Writes s move none { s.annals with
        ledger := ledger
        queue := s.queue.joined id priority s.now }
  | taken {job} (hmove : move = .takeJob) (hqueued : job ∈ s.queue.order) :
      Writes s move none { s.annals with queue := s.queue.without job }
  | dispatched {a} (hdispatches : Relation.ReflTransGen Dispatches s.annals a) :
      Writes s move none a
  | seized {job} (hfree : ∀ task ∈ s.tasks, task.job ≠ job) :
      Writes s move none { s.annals with
        queue := s.queue.without job
        tasks := s.tasks ++ [⟨s.issued, job, false, .starting⟩] }
  | begun {task job ledger} (htask : task ∈ s.tasks) (hstage : task.stage = .starting)
      (hready : job.status.canBecome .processing = true)
      (hrewrites : s.ledger.Rewrites task.job job (job.begun s.now) ledger) :
      Writes s move (some task.job) { s.annals with
        ledger := ledger
        tasks := Account.staged s.tasks task.ticket (.running (job.begun s.now))
        tally := s.tally.begin }
  | skipped {task} (hmove : move = .beginTask task.ticket) (htask : task ∈ s.tasks)
      (hstage : task.stage = .starting)
      (hover : ∀ job, s.ledger.get? task.job = some job → job.status.isTerminal = true) :
      Writes s move none { s.annals with
        tasks := Account.without s.tasks task.ticket
        tally := s.tally.begin.finish .skipped
        reported := s.audit.reported ++ [⟨task.job, 0, .skipped, Span.zero, s.now⟩] }
  | progressed {id job ledger} (percent : Nat) (hstatus : job.status = .processing)
      (hrewrites : s.ledger.Rewrites id job { job with progress := percent } ledger) :
      Writes s move none { s.annals with ledger := ledger }
  | ended {task before job next queue outcome ledger result} (htask : task ∈ s.tasks)
      (hmove : move = .endTask task.ticket result) (hstage : task.stage = .running before)
      (hstatus : job.status = .processing) (hout : task.job ∉ s.queue.order)
      (hconcludes : s.Concludes task.requeues job result next queue outcome)
      (hrewrites : s.ledger.Rewrites task.job job next ledger) :
      Writes s move none { s.annals with
        ledger := ledger
        queue := queue
        registry := s.claimsAfter task.job result
        tasks := Account.without s.tasks task.ticket
        tally := s.tally.finish outcome
        reported := s.audit.reported ++
          [⟨task.job, job.retries + 1, outcome, Span.zero, s.now⟩] }
  | claimed {id job} (path : Path) (hjob : s.ledger.get? id = some job) :
      Writes s move none { s.annals with registry := s.registry.claim id path }
  | released {id} (hmove : move = .unprotect id) :
      Writes s move none { s.annals with registry := s.registry.drop id }
  | withdrawn {id} (hmove : move = .withdrawJob id) (hqueued : id ∈ s.queue.order)
      (hrecord : ∀ job, s.ledger.get? id = some job → job.status ≠ .pending) :
      Writes s move none { s.annals with queue := s.queue.without id }
  | discarded {id job ledger} (hmove : move = .withdrawJob id) (hqueued : id ∈ s.queue.order)
      (hjob : s.ledger.get? id = some job) (hpending : job.status = .pending)
      (htouches : s.ledger.Touches id ledger) (hnone : ledger.get? id = none) :
      Writes s move none { s.annals with queue := s.queue.without id, ledger := ledger }
  | evicted {files} (ttl now : Nat) (hfiles : s.sweeps move = false → files = s.files) :
      Writes s move none { s.annals with
        ledger := (s.ledger.evict ttl now).2
        registry := s.registry.dropAll (s.ledger.evict ttl now).1
        evicted := s.evicted ++ (s.ledger.evict ttl now).1
        files := files }
  | swept (files : Tree) (hmove : s.sweeps move = true) :
      Writes s move none { s.annals with files := files }

variable {s : State} {move : Move} {slots : Nat} {l : Loans}

theorem hear_writes (caller : Caller) {verdict : Verdict} {line : Line}
    (hfree : verdict = .granted → ∀ task ∈ s.tasks, task.job ≠ caller.job) :
    Writes s move none ({ s with line := line }.hear caller verdict).annals := by
  cases verdict with
  | granted =>
    cases haim : caller.aim with
    | slot =>
      simp only [State.hear, haim]
      exact .nothing
    | run =>
      simp only [State.hear, haim]
      rw [Queue.erase?_getD]
      exact .seized (hfree rfl)
  | refused => exact .nothing
  | waits => exact .nothing
  | panics => exact .nothing

-- A job that gets a slot has no attempt.
theorem free_of_acquire {lent : List JobId} (h : (s.account lent).Balanced slots) {job : JobId}
    {gate : Gate} (hgate : s.line.gate.acquire? job = some gate) :
    ∀ task ∈ s.tasks, task.job ≠ job := by
  rintro task htask rfl
  exact (Gate.acquire?_eq_some_iff.mp hgate).1 (h.mem_holders htask)

theorem dispatches_frame {a a' : Annals} (h : Relation.ReflTransGen Dispatches a a') :
    a'.registry = a.registry ∧ a'.files = a.files ∧ a'.tally = a.tally ∧
      a'.reported = a.reported := by
  induction h with
  | refl => exact ⟨rfl, rfl, rfl, rfl⟩
  | tail _ hdispatches ih =>
    obtain ⟨ticket, -⟩ := hdispatches
    exact ih

theorem burstWithin_dispatches (fuel : Nat) (s : State) :
    Relation.ReflTransGen Dispatches s.annals (State.burstWithin fuel s).annals := by
  induction fuel generalizing s with
  | zero => exact .refl
  | succ fuel ih =>
    unfold State.burstWithin
    obtain hnone | ⟨job, queue, gate, hsome, hqueued, -, rfl⟩ := State.takeNext_cases s
    · rw [hnone]
    · simp only [hsome]
      refine Relation.ReflTransGen.head ?_ (ih _)
      exact .dispatches s.issued hqueued

theorem enqueue_writes (id : JobId) (priority : Int) :
    Writes s (.enqueue id priority) none (s.enqueue id priority).2.annals := by
  obtain ⟨fault, heq, -⟩ | ⟨job, ledger, hpending, hrewrites, hcases⟩ :=
    State.enqueue_cases s id priority
  · rw [heq]
    exact .nothing
  · obtain ⟨fault, heq, -⟩ | ⟨position, heq, -⟩ | ⟨position, heq, hout, -, -⟩ := hcases
    · rw [heq]
      exact .prioritized priority rfl hpending hrewrites
    · rw [heq]
      exact .prioritized priority rfl hpending hrewrites
    · rw [heq]
      exact .queued priority rfl hpending hrewrites hout

-- A new job is accepted into the queue, or there is no such job in the end.
theorem submit_writes {id : JobId} (hmove : move.names? = some id)
    (hfresh : s.ledger.get? id = none) (hout : id ∉ s.queue.order) (params : Params)
    (priority : Int) (maxRetries : Option Nat) :
    Writes s move none (s.submit id params priority maxRetries).2.annals := by
  obtain ⟨htouches, hjob⟩ :=
    s.ledger.create_touches id params (maxRetries.getD s.config.maxRetries) s.now
  rw [State.submit_eq]
  obtain ⟨fault, -, hnot⟩ | ⟨job, ledger, hpending, hrewrites, hcases⟩ :=
    State.enqueue_cases (s.addJob id params maxRetries).2 id priority
  · exact absurd rfl (hnot _ hjob)
  · have htouched := htouches.trans hrewrites.toTouches
    obtain rfl := hrewrites.eq_before hjob
    obtain ⟨fault, heq, -⟩ | ⟨position, heq, hin⟩ | ⟨position, heq, -, -, -⟩ := hcases
    · simp only [heq]
      obtain ⟨found, last, -, -, hforget, hlast, hnone⟩ | ⟨-, hall⟩ :=
        State.forget_cases { (s.addJob id params maxRetries).2 with ledger := ledger } id
      · rw [hforget]
        exact .refused hmove hfresh (htouched.trans hlast) hnone
      · exact absurd (rfl : Status.pending = .pending) (hall _ hrewrites.after)
    · exact absurd hin hout
    · simp only [heq]
      exact .submitted hmove hfresh htouched hrewrites.after ⟨_, _, rfl⟩ hout

theorem withdrawJob_writes (s : State) (id : JobId) :
    Writes s (.withdrawJob id) none (s.withdrawJob id).2.annals := by
  unfold State.withdrawJob
  cases herase : s.queue.erase? id with
  | none => exact .nothing
  | some queue =>
    obtain ⟨hqueued, rfl⟩ := Queue.erase?_eq_some herase
    obtain ⟨job, ledger, hjob, hpending, heq, htouches, hnone⟩ | ⟨heq, hall⟩ :=
      State.forget_cases { s with queue := s.queue.without id } id
    · simp only [heq]
      exact .discarded rfl hqueued hjob hpending htouches hnone
    · simp only [heq]
      exact .withdrawn rfl hqueued hall

theorem takeJob_writes (s : State) : Writes s .takeJob none s.takeJob.2.annals := by
  unfold State.takeJob
  obtain hnone | ⟨job, queue, gate, hsome, hqueued, -, rfl⟩ := State.takeNext_cases s
  · rw [hnone]
    exact .nothing
  · rw [hsome]
    exact .taken rfl hqueued

theorem returnSlot_writes (s : State) (id : JobId) :
    Writes s move none (s.returnSlot id).2.annals := by
  unfold State.returnSlot
  split
  · exact .nothing
  · exact .nothing

theorem protect_writes (s : State) (id : JobId) (path : String) :
    Writes s move none (s.protect id path).2.annals := by
  unfold State.protect
  split
  · rename_i hknown
    rw [Ledger.contains_eq_isSome] at hknown
    obtain ⟨job, hjob⟩ := Option.isSome_iff_exists.mp hknown
    exact .claimed _ hjob
  · exact .nothing

theorem sweep_writes (s : State) (dryRun : Bool) :
    Writes s (.sweep dryRun) none (s.apply (.sweep dryRun)).annals := by
  obtain heq | ⟨rfl, files, heq⟩ := s.apply_sweep_cases dryRun
  · rw [heq]
    exact .nothing
  · rw [heq]
    exact .swept files rfl

theorem maintain_writes (s : State) : Writes s .maintain none (s.apply .maintain).annals := by
  cases hupkeep : s.upkeep with
  | none =>
    simp only [State.apply, hupkeep]
    exact .nothing
  | some upkeep =>
    simp only [State.apply, hupkeep]
    split
    · rename_i hdue
      have hsweeps : s.sweeps .maintain = s.tidied.isSweepDue upkeep.swept := by
        simp [State.sweeps, hupkeep, hdue]
      rw [State.maintain_eq]
      split
      · rename_i hsweep
        obtain ⟨files, hfiles⟩ := s.tidied.exists_swept_eq
        rw [hfiles]
        exact .evicted _ _ fun hnot => absurd (hsweeps.trans hsweep) (by simp [hnot])
      · exact .evicted _ _ fun _ => rfl
    · exact .nothing

theorem beginTask_writes {lent : List JobId} (h : (s.account lent).Balanced slots) (ticket : Nat) :
    Writes s (.beginTask ticket) (s.calls? (.beginTask ticket))
      (s.apply (.beginTask ticket)).annals := by
  simp only [State.apply, State.withTask]
  cases htask : s.task? ticket with
  | none =>
    simp only [State.calls?, htask, Option.bind_none]
    exact .nothing
  | some task =>
    simp only [State.calls?, htask, Option.bind_some]
    cases hstage : task.stage with
    | running _ => exact .nothing
    | starting =>
      obtain ⟨hmem, rfl⟩ := State.task?_mem htask
      simp only [State.beginTask]
      rcases s.ledger.startAttempt_cases task.job s.now with
        ⟨job, ledger, hready, hok, hrewrites⟩ | ⟨fault, herror, hrecord⟩
      · simp only [hok]
        exact .begun hmem hstage hready hrewrites
      · obtain ⟨line, hline, -⟩ := Account.exists_release h hmem
        simp only [herror, State.freeSlot, hline]
        refine .skipped rfl hmem hstage fun job hjob => ?_
        -- A job in progress has an attempt that goes on, and no second one that is to begin.
        have hcan := hrecord job hjob
        have hnot : job.status ≠ .processing := by
          intro hstatus
          obtain ⟨other, hother, hsame, before, hrunning, -⟩ := h.processing _ job hjob hstatus
          obtain rfl := h.eq_of_job hother hmem hsame
          cases hstage.symm.trans hrunning
        cases hstatus : job.status <;> simp_all [Status.canBecome, Status.isTerminal]

theorem report_writes {lent : List JobId} (hfaithful : (s.account lent).Faithful)
    (ticket percent : Nat) :
    Writes s move none (s.apply (.report ticket percent)).annals := by
  simp only [State.apply, State.withTask]
  cases htask : s.task? ticket with
  | none => exact .nothing
  | some task =>
    simp only
    cases hstage : task.stage with
    | starting => exact .nothing
    | running before =>
      obtain ⟨hmem, -⟩ := State.task?_mem htask
      obtain ⟨job, hjob, hstatus⟩ := hfaithful.running task hmem before hstage
      simp only [State.report]
      rcases s.ledger.setProgress_cases task.job percent with
        ⟨found, ledger, -, hok, hrewrites⟩ | hok | ⟨fault, herror⟩
      · obtain rfl := hrewrites.eq_before hjob
        simp only [hok]
        exact .progressed _ hstatus hrewrites
      · simp only [hok]
        exact .nothing
      · simp only [herror]
        exact .nothing

theorem endTask_writes {lent : List JobId} (h : (s.account lent).Balanced slots)
    (hfaithful : (s.account lent).Faithful) (ticket : Nat) (result : Except Failure Artifact) :
    Writes s (.endTask ticket result) none (s.apply (.endTask ticket result)).annals := by
  simp only [State.apply, State.withTask]
  cases htask : s.task? ticket with
  | none => exact .nothing
  | some task =>
    simp only
    cases hstage : task.stage with
    | starting => exact .nothing
    | running before =>
      obtain ⟨hmem, rfl⟩ := State.task?_mem htask
      obtain ⟨job, hjob, hstatus⟩ := hfaithful.running task hmem before hstage
      have hout := h.apart task hmem
      obtain ⟨line, hline, hgate⟩ := Account.exists_release h hmem
      have hfree : task.job ∉ line.gate.holders := fun hheld =>
        ((Gate.mem_holders_release h.gate hgate).mp hheld).1 rfl
      obtain ⟨next, queue, outcome, ledger, hconcludes, hrewrites, heq⟩ :=
        State.endTask_concludes hline (h.named task hmem before hstage) hjob hstatus
          (h.eq_before hmem hstage hjob hstatus) hout hfree result
      simp only [heq]
      exact .ended hmem rfl hstage hstatus hout hconcludes hrewrites

theorem poll_writes (s : State) : Writes s move none (s.apply .poll).annals := by
  simp only [State.apply]
  split
  · split
    · exact .dispatched (burstWithin_dispatches s.queue.length s)
    · exact .nothing
  · exact .nothing

theorem firstLook_writes {lent : List JobId} (h : (s.account lent).Balanced slots) (tag : Nat) :
    Writes s move none (s.apply (.firstLook tag)).annals := by
  simp only [State.apply, State.withCaller]
  split
  · rename_i caller _
    split
    · unfold State.firstLook
      split
      · exact .nothing
      · rcases hlook : s.line.lookFirst s.now ⟨caller.tag, caller.job, s.now + caller.timeout⟩ with
          ⟨line, verdict⟩
        refine hear_writes caller fun hgranted => ?_
        rcases Line.lookFirst_gate hlook with ⟨-, hgate⟩ | ⟨hne, -⟩
        · exact free_of_acquire h hgate
        · exact absurd hgranted hne
    · exact .nothing
  · exact .nothing

theorem nextLook_writes {lent : List JobId} (h : (s.account lent).Balanced slots)
    (hknown : s.Known) : Writes s move none s.nextLook.annals := by
  unfold State.nextLook
  cases hresume : s.line.resume s.now with
  | none => exact .nothing
  | some resumed =>
    obtain ⟨call, line, verdict⟩ := resumed
    obtain ⟨hwoken, hlook⟩ := Line.resume_cases hresume
    obtain ⟨caller, hcaller, hjob⟩ := hknown call (List.mem_append_right _ hwoken)
    have hcaller' : ({ s with line := line } : State).caller? call.tag = some caller := hcaller
    simp only [hcaller']
    refine hear_writes caller fun hgranted => ?_
    rw [hjob]
    rcases Line.lookAgain_gate hlook with ⟨-, hgate⟩ | ⟨hne, -⟩
    · exact free_of_acquire h hgate
    · exact absurd hgranted hne

theorem pass_writes (s : State) (now : Nat) : Writes s move none (s.pass now).annals := by
  unfold State.pass
  split
  · obtain ⟨callers, heq, -⟩ := State.exists_expireCallers_eq { s with now := now }
    rw [heq]
    exact .nothing
  · exact .nothing

theorem abandon_writes (s : State) (tag : Nat) : Writes s move none (s.abandon tag).annals := by
  unfold State.abandon
  split
  · exact .nothing
  · split <;> exact .nothing

theorem collect_writes (s : State) (tag : Nat) :
    Writes s move none (s.apply (.collect tag)).annals := by
  simp only [State.apply, State.withCaller]
  split
  · split
    · split <;> exact .nothing
    · exact .nothing
  · exact .nothing

theorem make_writes (h : l.Regular slots) (hfresh : l.state.NamesAfresh move) :
    Writes l.state move (l.state.calls? move) (l.make move).state.annals := by
  obtain ⟨s, lent⟩ := l
  obtain ⟨hknown, hbalanced, hfaithful⟩ := h
  have hnone : ∀ id, move.names? = some id → s.ledger.get? id = none := fun id hid =>
    Ledger.contains_eq_false_iff.mp (hfresh id hid)
  cases move with
  | create id params maxRetries => exact .created params _ rfl (hnone id rfl)
  | submit id params priority maxRetries =>
    refine submit_writes rfl (hnone id rfl) (fun hqueued => ?_) params priority maxRetries
    obtain ⟨job, hjob, -⟩ := hfaithful.queued id hqueued
    cases (hnone id rfl).symm.trans hjob
  | enqueue id priority => exact enqueue_writes id priority
  | withdrawJob id => exact withdrawJob_writes s id
  | takeJob => exact takeJob_writes s
  | returnSlot id => exact returnSlot_writes s id
  | askRate caller category => exact .nothing
  | protect id path => exact protect_writes s id path
  | unprotect id => exact .released rfl
  | evict => exact .evicted _ _ (fun _ => rfl)
  | sweep dryRun => exact sweep_writes s dryRun
  | start => exact .nothing
  | stop => exact .nothing
  | arrive job aim timeout => exact .nothing
  | abandon tag => exact abandon_writes s tag
  | firstLook tag => exact firstLook_writes hbalanced tag
  | nextLook => exact nextLook_writes hbalanced hknown
  | collect tag => exact collect_writes s tag
  | beginTask ticket => exact beginTask_writes hbalanced ticket
  | report ticket percent => exact report_writes hfaithful ticket percent
  | endTask ticket result => exact endTask_writes hbalanced hfaithful ticket result
  | poll => exact poll_writes s
  | maintain => exact maintain_writes s
  | pass now => exact pass_writes s now

-- The registry says of each job once what its files are.
theorem Writes.extends_registry {a : Annals} {calls : Option JobId}
    (hwrites : Writes s move calls a) : s.registry.Extends a.registry := by
  cases hwrites with
  | dispatched hdispatches =>
    rw [(dispatches_frame hdispatches).1]
    exact .same _
  | @ended _ _ _ _ _ _ _ result _ _ _ _ _ _ _ =>
    cases result with
    | ok artifact => exact s.registry.extends_claim _ _
    | error cause => exact .same _
  | claimed path _ => exact s.registry.extends_claim _ path
  | released _ => exact s.registry.extends_drop _
  | evicted _ _ _ => exact s.registry.extends_dropAll _
  | _ => exact .same _

theorem Writes.files_eq {a : Annals} {calls : Option JobId} (hwrites : Writes s move calls a)
    (hsweeps : s.sweeps move = false) : a.files = s.files := by
  cases hwrites with
  | dispatched hdispatches => exact (dispatches_frame hdispatches).2.1
  | evicted _ _ hfiles => exact hfiles hsweeps
  | swept _ hmove => cases hsweeps.symm.trans hmove
  | _ => rfl

end Annals

end Foreman.Engine
