import Foreman.Proofs.Engine.Loans
import Foreman.Proofs.Gate.Slots
import Foreman.Proofs.Ledger.Record
import Foreman.Proofs.Queue.Order

namespace Foreman.Engine.State

variable {s s' : State} {caller : Caller} {tag : Nat} {phase : Phase} {verdict : Verdict}
  {line : Line} {call : Call} {job : JobId}

theorem task?_mem {ticket : Nat} {task : Task} (h : s.task? ticket = some task) :
    task ∈ s.tasks ∧ task.ticket = ticket :=
  ⟨List.mem_of_find?_eq_some h, by simpa using List.find?_some h⟩

theorem caller?_tag {tag : Nat} {caller : Caller} (h : s.caller? tag = some caller) :
    caller.tag = tag := by
  simpa using List.find?_some h

theorem lendsTo?_run {caller : Caller} (h : caller.aim = .run) (verdict : Verdict) :
    lendsTo? caller verdict = none := by
  cases verdict <;> simp [lendsTo?, h]

-- Whoever stands in front of the gate is a caller, who is after the slot of the same job.
def Known (s : State) : Prop :=
  ∀ call ∈ s.line.calls, ∃ caller, s.caller? call.tag = some caller ∧ caller.job = call.job

-- The callers stay who they are.
def Remembers (s s' : State) : Prop :=
  ∀ tag caller, s.caller? tag = some caller →
    ∃ caller', s'.caller? tag = some caller' ∧ caller'.job = caller.job

theorem Remembers.of_callers (h : s'.callers = s.callers) : s.Remembers s' := by
  intro tag caller hcaller
  refine ⟨caller, ?_, rfl⟩
  rw [caller?, h]
  exact hcaller

theorem Remembers.trans {s'' : State} (h : s.Remembers s') (h' : s'.Remembers s'') :
    s.Remembers s'' := by
  intro tag caller hcaller
  obtain ⟨caller', hcaller', hjob⟩ := h tag caller hcaller
  obtain ⟨caller'', hcaller'', hjob'⟩ := h' tag caller' hcaller'
  exact ⟨caller'', hcaller'', hjob'.trans hjob⟩

theorem remembers_setCaller (s : State) (tag : Nat) (phase : Phase) :
    s.Remembers (s.setCaller tag phase) := by
  intro other caller hcaller
  have hkey : ∀ caller : Caller,
      (if caller.tag = tag then { caller with phase := phase } else caller).tag = caller.tag := by
    intro caller
    split <;> rfl
  refine ⟨if caller.tag = tag then { caller with phase := phase } else caller, ?_, ?_⟩
  · simp only [caller?] at hcaller
    simp [caller?, setCaller, List.find?_map, hkey, hcaller]
  · split <;> rfl

theorem remembers_arrive (s : State) (job : JobId) (aim : Aim) (timeout : Nat) :
    s.Remembers (s.arrive job aim timeout).2 := by
  intro tag caller hcaller
  refine ⟨caller, ?_, rfl⟩
  simp only [caller?] at hcaller
  simp [caller?, arrive, List.find?_append, hcaller]

theorem Known.of (h : s.Known) (hcallers : s.Remembers s')
    (hcalls : ∀ call ∈ s'.line.calls, call ∈ s.line.calls) : s'.Known := by
  intro call hcall
  obtain ⟨caller, hcaller, hjob⟩ := h call (hcalls call hcall)
  obtain ⟨caller', hcaller', hjob'⟩ := hcallers _ _ hcaller
  exact ⟨caller', hcaller', hjob'.trans hjob⟩

-- To hear a verdict changes nothing in front of the gate.
theorem hear_frame (s : State) (caller : Caller) (verdict : Verdict) :
    (s.hear caller verdict).line = s.line ∧ s.Remembers (s.hear caller verdict) := by
  cases verdict with
  | granted =>
    simp only [hear]
    split
    · exact ⟨rfl, remembers_setCaller _ _ _⟩
    · exact ⟨rfl, remembers_setCaller { s with queue := _ } _ _⟩
  | refused => exact ⟨rfl, remembers_setCaller _ _ _⟩
  | waits => exact ⟨rfl, remembers_setCaller _ _ _⟩
  | panics => exact ⟨rfl, remembers_setCaller _ _ _⟩

theorem Known.hear (h : s.Known) (hcaller : s.caller? caller.tag = some caller)
    (hcalls : ∀ call ∈ line.calls, call ∈ s.line.calls ∨
      call.tag = caller.tag ∧ call.job = caller.job) (verdict : Verdict) :
    ({ s with line := line }.hear caller verdict).Known := by
  obtain ⟨hline, hcallers⟩ := hear_frame { s with line := line } caller verdict
  intro call hcall
  rw [hline] at hcall
  rcases hcalls call hcall with hold | ⟨htag, hjob⟩
  · obtain ⟨found, hfound, hsame⟩ := h call hold
    obtain ⟨found', hfound', hsame'⟩ := hcallers _ _ hfound
    exact ⟨found', hfound', hsame'.trans hsame⟩
  · obtain ⟨found', hfound', hsame'⟩ := hcallers _ _ hcaller
    exact ⟨found', htag ▸ hfound', hsame'.trans hjob.symm⟩

-- A slot that is given back leaves everyone in front of the gate who is there.
theorem Known.release {line : Line} {job : JobId} {s' : State} (hknown : s.Known)
    (hline : s.line.release? job = some line) (hs : s'.line = line)
    (hcallers : s'.callers = s.callers) : s'.Known := by
  refine hknown.of (Remembers.of_callers hcallers) fun call hcall => ?_
  rw [hs] at hcall
  exact (Line.release?_calls hline).mem_iff.mp hcall

theorem Known.same {s' : State} (hknown : s.Known) (hcalls : s'.line.calls = s.line.calls)
    (hcallers : s'.callers = s.callers) : s'.Known := by
  refine hknown.of (Remembers.of_callers hcallers) fun call hcall => ?_
  rw [hcalls] at hcall
  exact hcall

theorem takeNext_cases (s : State) :
    s.takeNext = none ∨ ∃ job queue gate, s.takeNext = some (job,
        { s with queue := queue, line := { s.line with gate := gate } }) ∧
      job ∈ s.queue.order ∧ s.line.gate.acquire? job = some gate ∧
      queue = s.queue.without job := by
  unfold takeNext
  cases hdequeue : s.queue.dequeue? s.gate with
  | none => exact .inl rfl
  | some taken =>
    obtain ⟨job, queue, gate⟩ := taken
    obtain ⟨hqueued, hgate, hqueue⟩ := Queue.dequeue?_eq_some hdequeue
    exact .inr ⟨job, queue, gate, rfl, hqueued, hgate, hqueue⟩

-- What becomes of a request to queue a job: it is turned down because of how the job stands, or
-- it has a priority from then on, with which it may get a place in the queue.
theorem enqueue_cases (s : State) (id : JobId) (priority : Int) :
    (∃ fault, s.enqueue id priority = (.error fault, s) ∧
      ∀ job, s.ledger.get? id = some job → job.status ≠ .pending) ∨
    ∃ job ledger, job.status = .pending ∧
      s.ledger.Rewrites id job { job with priority := some priority } ledger ∧
      ((∃ fault, s.enqueue id priority = (.error fault, { s with ledger := ledger }) ∧
          id ∉ s.queue.order) ∨
        (∃ position, s.enqueue id priority = (.ok position, { s with ledger := ledger }) ∧
          id ∈ s.queue.order) ∨
        (∃ position, s.enqueue id priority = (.ok position,
            { s with ledger := ledger, queue := s.queue.joined id priority s.now }) ∧
          id ∉ s.queue.order ∧ id ∉ s.line.gate.holders ∧ s.queue.length < s.queue.capacity)) := by
  unfold enqueue
  cases hjob : s.ledger.get? id with
  | none => exact .inl ⟨_, rfl, by simp⟩
  | some job =>
    by_cases hpending : job.status = .pending
    · simp only [hpending, if_true]
      rcases s.ledger.setPriority_cases id priority with
        ⟨found, ledger, hok, hrewrites⟩ | ⟨fault, -, hnone⟩
      · obtain rfl := hrewrites.eq_before hjob
        refine .inr ⟨found, ledger, hpending, hrewrites, ?_⟩
        simp only [hok, State.gate]
        rcases s.queue.enqueue_cases s.line.gate id priority s.now with
          ⟨hin, position, henqueue⟩ | ⟨hout, -, henqueue⟩ | ⟨hout, -, -, henqueue⟩ |
          ⟨hout, hfree, hroom, position, henqueue⟩
        · exact .inr (.inl ⟨position, by rw [henqueue], hin⟩)
        · exact .inl ⟨_, by rw [henqueue], hout⟩
        · exact .inl ⟨_, by rw [henqueue], hout⟩
        · exact .inr (.inr ⟨position, by rw [henqueue], hout, hfree, hroom⟩)
      · rw [hjob] at hnone
        cases hnone
    · refine .inl ⟨_, by simp only [if_neg hpending]; rfl, fun found hfound => ?_⟩
      obtain rfl := Option.some_inj.mp hfound
      exact hpending

theorem forget_cases (s : State) (id : JobId) :
    (∃ job ledger, s.ledger.get? id = some job ∧ job.status = .pending ∧
      s.forget id = { s with ledger := ledger } ∧ s.ledger.Touches id ledger ∧
      ledger.get? id = none) ∨
    (s.forget id = s ∧ ∀ job, s.ledger.get? id = some job → job.status ≠ .pending) := by
  unfold forget
  rcases s.ledger.discard_cases id with
    ⟨job, ledger, hjob, hpending, hdiscard, htouches, hnone⟩ | ⟨hdiscard, hall⟩
  · exact .inl ⟨job, ledger, hjob, hpending, by rw [hdiscard]; rfl, htouches, hnone⟩
  · exact .inr ⟨by rw [hdiscard]; rfl, hall⟩

theorem submit_eq (s : State) (id : JobId) (params : Params) (priority : Int)
    (maxRetries : Option Nat) : (s.submit id params priority maxRetries).2 =
      match (s.addJob id params maxRetries).2.enqueue id priority with
      | (.ok _, s) => s
      | (.error _, s) => s.forget id := by
  have hid : (s.addJob id params maxRetries).1.id = id := rfl
  rcases hadd : s.addJob id params maxRetries with ⟨job, added⟩
  rw [hadd] at hid
  obtain rfl : job.id = id := hid
  simp only [submit, hadd]
  rcases added.enqueue job.id priority with ⟨_ | position, next⟩
  · rfl
  · cases hjob : next.job? job.id with
    | none => simp only [hjob]
    | some found => simp only [hjob]

theorem exists_eq_of_sweep {s' : State} {dryRun : Bool} {swept : SweepReport}
    (h : s.sweep dryRun = .ok (swept, s')) : ∃ files, s' = { s with files := files } := by
  unfold State.sweep at h
  split at h
  · cases h
  · obtain ⟨-, rfl⟩ := Prod.mk.inj (Except.ok.inj h)
    exact ⟨_, rfl⟩

-- A dry run leaves the files as they are.
theorem eq_of_dryRun {s' : State} {report : SweepReport} (h : s.sweep true = .ok (report, s')) :
    s' = s := by
  unfold State.sweep at h
  split at h
  · cases h
  · rename_i found files hfound
    obtain ⟨-, rfl⟩ := Prod.mk.inj (Except.ok.inj h)
    have hfiles : files = s.files := by
      unfold RetentionRules.sweep at hfound
      split at hfound
      · exact (Prod.mk.inj (Except.ok.inj hfound)).2.symm
      · cases hfound
      · exact (Prod.mk.inj (Except.ok.inj hfound)).2.symm
    rw [hfiles]

-- A sweep changes nothing but the files, and a dry run not even those.
theorem apply_sweep_cases (s : State) (dryRun : Bool) : s.apply (.sweep dryRun) = s ∨
    dryRun = false ∧ ∃ files, s.apply (.sweep dryRun) = { s with files := files } := by
  simp only [apply]
  cases hsweep : s.sweep dryRun with
  | error fault => exact .inl rfl
  | ok result =>
    obtain ⟨report, next⟩ := result
    cases dryRun with
    | true => exact .inl (eq_of_dryRun hsweep)
    | false =>
      obtain ⟨files, rfl⟩ := exists_eq_of_sweep hsweep
      exact .inr ⟨rfl, files, rfl⟩

def tidied (s : State) : State :=
  { s.evictOld.2 with limiter := s.evictOld.2.limiter.dropFull s.evictOld.2.nanos }

-- What is there after a sweep, also when it could not be made.
def swept (s : State) : State :=
  match s.sweep false with
  | .ok (_, s) => s
  | .error _ => s

theorem exists_swept_eq (s : State) : ∃ files, s.swept = { s with files := files } := by
  cases hsweep : s.sweep false with
  | error fault => exact ⟨s.files, by simp only [swept, hsweep]⟩
  | ok result =>
    obtain ⟨files, hfiles⟩ := exists_eq_of_sweep hsweep
    exact ⟨files, by simp only [swept, hsweep, hfiles]⟩

theorem maintain_eq (s : State) (upkeep : Upkeep) : s.maintain upkeep =
    if s.tidied.isSweepDue upkeep.swept then
      { s.tidied.swept with
        upkeep := some ⟨s.config.upkeep.roundAfter s.now, s.tidied.swept.now⟩ }
    else { s.tidied with upkeep := some ⟨s.config.upkeep.roundAfter s.now, upkeep.swept⟩ } := rfl

-- Upkeep is eviction, as far as jobs and slots are concerned.
theorem exists_maintain_eq (s : State) (upkeep : Upkeep) :
    ∃ limiter files next, s.maintain upkeep =
      { s.evictOld.2 with limiter := limiter, files := files, upkeep := next } := by
  rw [maintain_eq]
  split
  · obtain ⟨files, hfiles⟩ := exists_swept_eq (tidied s)
    rw [hfiles]
    exact ⟨_, _, _, rfl⟩
  · exact ⟨_, _, _, rfl⟩

-- What becomes of a job after an attempt is written down in the ledger. The file that it ended
-- with, if there is one, is in the registry, and a job that is to be tried again in the queue.
theorem exists_fail_eq (s : State) (job : JobId) (reason : String) :
    ∃ ledger, s.fail job reason = { s with ledger := ledger } := by
  unfold fail
  split
  · exact ⟨_, rfl⟩
  · exact ⟨s.ledger, rfl⟩

theorem exists_planRetry_eq (s : State) (job : Job) (reason : String) :
    ∃ ledger, (s.planRetry job reason).2 = { s with ledger := ledger } := by
  unfold planRetry
  split
  · split
    · exact ⟨_, rfl⟩
    · exact s.exists_fail_eq _ _
  · exact s.exists_fail_eq _ _

theorem exists_settleResult_eq (s : State) (job : Job) (requeues : Bool)
    (result : Except Failure Artifact) :
    ∃ ledger registry, (s.settleResult job requeues result).2 =
      { s with ledger := ledger, registry := registry } := by
  cases result with
  | ok artifact =>
    simp only [settleResult]
    split
    · exact ⟨_, _, rfl⟩
    · exact ⟨s.ledger, _, rfl⟩
  | error cause =>
    have hfails : ∃ ledger, (s.settleResult job requeues (.error cause)).2 =
        { s with ledger := ledger } := by
      cases cause with
      | retriable reason =>
        cases requeues with
        | true => exact s.exists_planRetry_eq job reason
        | false => exact s.exists_fail_eq _ _
      | nonRetriable reason => exact s.exists_fail_eq _ _
      | unexpected chain => exact s.exists_fail_eq _ _
    obtain ⟨ledger, heq⟩ := hfails
    exact ⟨ledger, s.registry, heq⟩

theorem touches_fail (s : State) (job : JobId) (reason : String) :
    s.ledger.Touches job (s.fail job reason).ledger := by
  unfold fail
  rcases s.ledger.fail_cases job reason s.now with
    ⟨found, ledger, -, hok, hrewrites⟩ | ⟨fault, herror, -⟩
  · rw [hok]
    exact hrewrites.toTouches
  · rw [herror]
    exact .refl _ _

theorem touches_planRetry (s : State) (job : Job) (reason : String) :
    s.ledger.Touches job.id (s.planRetry job reason).2.ledger := by
  unfold planRetry
  split
  · rcases s.ledger.retry_cases job.id reason with
      ⟨found, ledger, -, -, hok, hrewrites⟩ | ⟨fault, herror, -⟩
    · rw [hok]
      exact hrewrites.toTouches
    · rw [herror]
      exact s.touches_fail _ _
  · exact s.touches_fail _ _

-- The result of an attempt is on record with its own job and nowhere else.
theorem touches_settleResult (s : State) (job : Job) (requeues : Bool)
    (result : Except Failure Artifact) :
    s.ledger.Touches job.id (s.settleResult job requeues result).2.ledger := by
  cases result with
  | ok artifact =>
    simp only [settleResult]
    rcases s.ledger.complete_cases job.id artifact s.now with
      ⟨found, ledger, -, hok, hrewrites⟩ | ⟨fault, herror, -⟩
    · rw [hok]
      exact hrewrites.toTouches
    · rw [herror]
      exact .refl _ _
  | error cause =>
    cases cause with
    | retriable reason =>
      cases requeues with
      | true => exact s.touches_planRetry job reason
      | false => exact s.touches_fail _ _
    | nonRetriable reason => exact s.touches_fail _ _
    | unexpected chain => exact s.touches_fail _ _

theorem requeue_of_ok {job : JobId} {priority : Int} {position : Nat} {queue : Queue}
    (hok : s.queue.enqueue s.gate job priority s.now = .ok (position, queue)) (reason : String) :
    s.requeue job priority reason = (.retried, { s with queue := queue }) := by
  simp only [requeue, hok]

theorem requeue_of_error {job : JobId} {priority : Int} {fault : Fault}
    (herror : s.queue.enqueue s.gate job priority s.now = .error fault) (reason : String) :
    s.requeue job priority reason = (.failed,
      s.fail job (reason ++ "; retry could not be scheduled: " ++ fault.message)) := by
  simp only [requeue, herror]

theorem exists_followUp_eq (s : State) (job : JobId) (sequel : Sequel) :
    ∃ ledger queue, (s.followUp job sequel).2 = { s with ledger := ledger, queue := queue } := by
  cases sequel with
  | done outcome => exact ⟨s.ledger, s.queue, rfl⟩
  | requeue priority reason =>
    simp only [followUp, requeue]
    split
    · exact ⟨s.ledger, _, rfl⟩
    · obtain ⟨ledger, heq⟩ := s.exists_fail_eq job _
      exact ⟨ledger, s.queue, heq⟩

theorem exists_freeSlot_eq (s : State) (job : JobId) :
    ∃ line, s.freeSlot job = { s with line := line } := by
  unfold freeSlot
  split
  · exact ⟨_, rfl⟩
  · exact ⟨s.line, rfl⟩

-- Callers who are turned away one after the other change nothing else.
theorem exists_refused_eq (calls : List Call) (s : State) :
    ∃ callers, calls.foldl (fun s call => match s.caller? call.tag with
      | none => s
      | some caller => s.hear caller .refused) s = { s with callers := callers } ∧
        s.Remembers { s with callers := callers } := by
  induction calls generalizing s with
  | nil => exact ⟨s.callers, rfl, Remembers.of_callers rfl⟩
  | cons call calls ih =>
    rw [List.foldl_cons]
    cases hcaller : s.caller? call.tag with
    | none => exact ih s
    | some caller =>
      obtain ⟨callers, heq, hremembers⟩ := ih (s.hear caller .refused)
      exact ⟨callers, heq, (remembers_setCaller s _ _).trans hremembers⟩

theorem exists_expireCallers_eq (s : State) :
    ∃ callers, s.expireCallers =
        { s with line := (s.line.expire s.now).1, callers := callers } ∧
      s.Remembers { s with line := (s.line.expire s.now).1, callers := callers } :=
  exists_refused_eq (s.line.expire s.now).2 { s with line := (s.line.expire s.now).1 }

theorem enqueue_frame (s : State) (id : JobId) (priority : Int) :
    (s.enqueue id priority).2.line = s.line ∧ (s.enqueue id priority).2.callers = s.callers := by
  obtain ⟨fault, heq, -⟩ | ⟨job, ledger, -, -, hcases⟩ := enqueue_cases s id priority
  · rw [heq]
    exact ⟨rfl, rfl⟩
  · obtain ⟨fault, heq, -⟩ | ⟨position, heq, -⟩ | ⟨position, heq, -⟩ := hcases
    · rw [heq]
      exact ⟨rfl, rfl⟩
    · rw [heq]
      exact ⟨rfl, rfl⟩
    · rw [heq]
      exact ⟨rfl, rfl⟩

theorem submit_frame (s : State) (id : JobId) (params : Params) (priority : Int)
    (maxRetries : Option Nat) :
    (s.submit id params priority maxRetries).2.line = s.line ∧
      (s.submit id params priority maxRetries).2.callers = s.callers := by
  rw [submit_eq]
  have hframe := enqueue_frame (s.addJob id params maxRetries).2 id priority
  rcases henqueue : (s.addJob id params maxRetries).2.enqueue id priority with ⟨_ | position, next⟩
  · rw [henqueue] at hframe
    exact hframe
  · rw [henqueue] at hframe
    exact hframe

theorem withdrawJob_frame (s : State) (id : JobId) :
    (s.withdrawJob id).2.line = s.line ∧ (s.withdrawJob id).2.callers = s.callers := by
  unfold withdrawJob
  split
  · exact ⟨rfl, rfl⟩
  · exact ⟨rfl, rfl⟩

theorem takeJob_frame (s : State) :
    s.takeJob.2.line.calls = s.line.calls ∧ s.takeJob.2.callers = s.callers := by
  unfold takeJob
  obtain hnone | ⟨job, queue, gate, hsome, -, -, -⟩ := takeNext_cases s
  · simp only [hnone, and_self]
  · simp only [hsome, and_true]
    rfl

theorem burstWithin_frame (fuel : Nat) (s : State) :
    (burstWithin fuel s).line.calls = s.line.calls ∧ (burstWithin fuel s).callers = s.callers := by
  induction fuel generalizing s with
  | zero => exact ⟨rfl, rfl⟩
  | succ fuel ih =>
    unfold burstWithin
    obtain hnone | ⟨job, queue, gate, hsome, -, -, -⟩ := takeNext_cases s
    · simp only [hnone, and_self]
    · simp only [hsome]
      exact ih _

end Foreman.Engine.State
