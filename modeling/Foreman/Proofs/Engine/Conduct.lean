import Foreman.Proofs.Engine.Balance
import Foreman.Proofs.Engine.Ending
import Foreman.Proofs.Engine.Frames

namespace Foreman.Engine.Account

open State

variable {s : State} {lent : List JobId} {move : Move} {a : Account} {slots : Nat}

theorem Step.same (move : Move) (a : Account) : Step move a a :=
  .quiet (Nat.le_refl _) (Nat.le_refl _)

-- A caller hears what the gate has to say. A slot that is granted is lent out, or it is that of
-- an attempt from then on.
theorem hear_step (move : Move) (lent : List JobId) (caller : Caller) {verdict : Verdict}
    {line : Line}
    (hgate : (verdict = .granted ∧ s.line.gate.acquire? caller.job = some line.gate) ∨
      (verdict ≠ .granted ∧ line.gate = s.line.gate)) :
    Step move (s.account lent) (({ s with line := line }.hear caller verdict).account
      (lent ++ (lendsTo? caller verdict).toList)) := by
  cases verdict with
  | granted =>
    obtain ⟨-, hgate⟩ | ⟨hne, -⟩ := hgate
    · cases haim : caller.aim with
      | slot =>
        simp only [hear, haim, lendsTo?, Option.toList_some]
        exact Step.lent hgate
      | run =>
        simp only [hear, haim, lendsTo?, Option.toList_none, List.append_nil]
        rw [Queue.erase?_getD]
        exact .admitted (.single (.admits false hgate (by simp)))
    · exact absurd rfl hne
  | refused =>
    obtain ⟨he, -⟩ | ⟨-, hgate⟩ := hgate
    · cases he
    · simp only [hear, lendsTo?, Option.toList_none, List.append_nil]
      convert Step.same move (s.account lent) using 1
      simp [account, setCaller, hgate]
  | waits | panics =>
    obtain ⟨he, -⟩ | ⟨-, hgate⟩ := hgate
    · cases he
    · simp only [hear, lendsTo?, Option.toList_none, List.append_nil]
      convert Step.same move (s.account lent) using 1
      simp [account, setCaller, hgate]

theorem look_step (move : Move) (lent : List JobId) {caller : Caller} {call : Call} {line : Line}
    {verdict : Verdict} (hjob : caller.job = call.job)
    (hlook : s.line.lookFirst s.now call = (line, verdict)) :
    Step move (s.account lent) (({ s with line := line }.hear caller verdict).account
      (lent ++ (lendsTo? caller verdict).toList)) :=
  hear_step move lent caller (hjob ▸ Line.lookFirst_gate hlook)

theorem lookAgain_step (move : Move) (lent : List JobId) {caller : Caller} {call : Call}
    {line : Line} {verdict : Verdict} (hjob : caller.job = call.job)
    (hlook : s.line.lookAgain s.now call = (line, verdict)) :
    Step move (s.account lent) (({ s with line := line }.hear caller verdict).account
      (lent ++ (lendsTo? caller verdict).toList)) :=
  hear_step move lent caller (hjob ▸ Line.lookAgain_gate hlook)

-- Each job that the dispatcher takes out of the queue has a slot and an attempt.
theorem burstWithin_admits (fuel : Nat) (s : State) (lent : List JobId) :
    Relation.ReflTransGen Admits (s.account lent) ((burstWithin fuel s).account lent) := by
  induction fuel generalizing s with
  | zero => exact .refl
  | succ fuel ih =>
    unfold burstWithin
    obtain hnone | ⟨job, queue, gate, hsome, hqueued, hgate, rfl⟩ := takeNext_cases s
    · rw [hnone]
    · simp only [hsome]
      refine Relation.ReflTransGen.head ?_ (ih _)
      exact .admits true hgate (fun _ => hqueued)

theorem takeJob_step (move : Move) (s : State) (lent : List JobId) :
    Step move (s.account lent) (s.takeJob.2.account (lent ++ s.takeJob.1.toList)) := by
  unfold takeJob
  obtain hnone | ⟨job, queue, gate, hsome, hqueued, hgate, rfl⟩ := takeNext_cases s
  · simp only [hnone, Option.toList_none, List.append_nil]
    exact .same move _
  · simp only [hsome, Option.toList_some]
    exact .taken hgate hqueued

theorem returnSlot_step {job : JobId} (hlent : job ∈ lent) (hheld : job ∈ s.line.gate.holders) :
    Step (.returnSlot job) (s.account lent) ((s.returnSlot job).2.account (lent.erase job)) := by
  have hrelease : ∃ gate, s.line.gate.release? job = some gate :=
    ⟨_, Gate.release?_eq_some_iff.mpr ⟨hheld, rfl⟩⟩
  obtain ⟨gate, hgate⟩ := hrelease
  simp only [returnSlot, Line.release?, hgate, Option.map_some]
  convert Step.returned (a := s.account lent) rfl hlent hgate using 1
  simp [account]

-- The slot of an attempt can always be given back.
theorem exists_release {task : Task} (h : (s.account lent).Balanced slots)
    (htask : task ∈ s.tasks) : ∃ line, s.line.release? task.job = some line ∧
      s.line.gate.release? task.job = some line.gate := by
  have hgate : s.line.gate.release? task.job = some _ :=
    Gate.release?_eq_some_iff.mpr ⟨h.mem_holders htask, rfl⟩
  have hline : s.line.release? task.job = some _ :=
    Line.release?_eq_some_iff.mpr ⟨_, hgate, rfl⟩
  exact ⟨_, hline, Line.release?_gate hline⟩

theorem beginTask_step {task : Task} (move : Move) (h : (s.account lent).Balanced slots)
    (htask : task ∈ s.tasks) (hstage : task.stage = .starting) :
    Step move (s.account lent) ((s.beginTask task).account lent) := by
  unfold beginTask
  rcases s.ledger.startAttempt_cases task.job s.now with
    ⟨job, ledger, hready, hok, hrewrites⟩ | ⟨fault, herror, hrecord⟩
  · simp only [hok]
    exact Step.begun (a := s.account lent) htask hstage hready hrewrites
  · obtain ⟨line, hline, hgate⟩ := exists_release h htask
    simp only [herror, freeSlot, hline]
    exact Step.skipped (a := s.account lent) htask hstage hrecord hgate

theorem aftermath_of_concludes {task : Task} {before job next : Job} {queue : Queue}
    {outcome : Outcome} {ledger : Ledger} {result : Except Failure Artifact}
    (hconcludes : s.Concludes task.requeues job result next queue outcome)
    (hrewrites : s.ledger.Rewrites task.job job next ledger) (hstatus : job.status = .processing)
    (hsame : job = { before with progress := job.progress }) (hout : task.job ∉ s.queue.order) :
    Aftermath (s.account lent) task before ledger queue := by
  cases hconcludes with
  | retried hrequeues _ hroom =>
    have hpriority : job.priority = before.priority := by rw [hsame]
    have hid : job.id = task.job := (Ledger.get?_mem hrewrites.before).2
    rw [hpriority, hid]
    exact .retried hrewrites hstatus hrequeues hout hroom
  | completed _ => exact .finished hrewrites hstatus rfl
  | crowdedOut _ _ _ => exact .finished hrewrites hstatus rfl
  | exhausted _ _ => exact .finished hrewrites hstatus rfl
  | direct _ => exact .finished hrewrites hstatus rfl
  | nonRetriable _ => exact .finished hrewrites hstatus rfl
  | unexpected _ => exact .finished hrewrites hstatus rfl

-- An attempt that goes on is the one by which its job is in progress.
theorem Balanced.eq_before {task : Task} {before job : Job} (h : a.Balanced slots)
    (htask : task ∈ a.tasks) (hstage : task.stage = .running before)
    (hjob : a.ledger.get? task.job = some job) (hstatus : job.status = .processing) :
    job = { before with progress := job.progress } := by
  obtain ⟨other, hother, hsame, found, hrunning, hrecord⟩ := h.processing _ job hjob hstatus
  obtain rfl := h.eq_of_job hother htask hsame
  cases hstage.symm.trans hrunning
  exact hrecord

theorem exists_endTask_eq {task : Task} {before : Job} (h : (s.account lent).Balanced slots)
    (htask : task ∈ s.tasks) (hstage : task.stage = .running before)
    (result : Except Failure Artifact) :
    ∃ line ledger queue registry attempt outcome, s.line.release? task.job = some line ∧
      s.endTask task before result = s.closed task line ledger queue registry attempt outcome ∧
      Aftermath (s.account lent) task before ledger queue := by
  obtain ⟨line, hline, hgate⟩ := exists_release h htask
  have hnamed := h.named task htask before hstage
  by_cases hrecord : ∃ job, s.ledger.get? task.job = some job ∧ job.status = .processing
  · obtain ⟨job, hjob, hstatus⟩ := hrecord
    have hsame := h.eq_before htask hstage hjob hstatus
    have hout := h.apart task htask
    have hfree : task.job ∉ line.gate.holders := fun hheld =>
      ((Gate.mem_holders_release h.gate hgate).mp hheld).1 rfl
    obtain ⟨next, queue, outcome, ledger, hconcludes, hrewrites, heq⟩ :=
      endTask_concludes hline hnamed hjob hstatus hsame hout hfree result
    exact ⟨line, ledger, queue, _, _, outcome, hline, heq,
      aftermath_of_concludes hconcludes hrewrites hstatus hsame hout⟩
  · have hpending : ∀ job, s.ledger.get? task.job = some job → job.status = .pending := by
      intro job hjob
      rcases h.running task htask before hstage job hjob with hpending | hstatus
      · exact hpending
      · exact absurd ⟨job, hjob, hstatus⟩ hrecord
    obtain ⟨outcome, heq⟩ := endTask_stale hline hnamed hpending result
    exact ⟨line, s.ledger, s.queue, _, _, outcome, hline, heq, .stale hpending⟩

theorem report_step (move : Move) (job : JobId) (percent : Nat) :
    Step move (s.account lent) ((s.report job percent).account lent) := by
  unfold report
  rcases s.ledger.setProgress_cases job percent with
    ⟨found, ledger, -, hok, hrewrites⟩ | hok | ⟨fault, herror⟩
  · simp only [hok]
    exact Step.progressed (a := s.account lent) _ hrewrites
  · simp only [hok]
    exact .same move _
  · simp only [herror]
    exact .same move _

theorem enqueue_step (move : Move) (id : JobId) (priority : Int) :
    Step move (s.account lent) ((s.enqueue id priority).2.account lent) := by
  obtain ⟨fault, heq, -⟩ | ⟨job, ledger, hpending, hrewrites, hcases⟩ :=
    enqueue_cases s id priority
  · rw [heq]
    exact .same move _
  · obtain ⟨fault, heq, -⟩ | ⟨position, heq, -⟩ | ⟨position, heq, hout, hfree, hroom⟩ := hcases
    · rw [heq]
      exact Step.prioritized (a := s.account lent) priority hpending hrewrites
    · rw [heq]
      exact Step.prioritized (a := s.account lent) priority hpending hrewrites
    · rw [heq]
      exact Step.queued (a := s.account lent) priority hpending hrewrites hout hfree hroom

theorem addJob_step {id : JobId} (hmove : move.names? = some id) (params : Params)
    (maxRetries : Option Nat) :
    Step move (s.account lent) ((s.addJob id params maxRetries).2.account lent) := by
  obtain ⟨htouches, hjob⟩ :=
    s.ledger.create_touches id params (maxRetries.getD s.config.maxRetries) s.now
  exact Step.created (a := s.account lent) hmove htouches hjob rfl

theorem submit_step {id : JobId} (hmove : move.names? = some id) (params : Params)
    (priority : Int) (maxRetries : Option Nat) :
    Step move (s.account lent) ((s.submit id params priority maxRetries).2.account lent) := by
  obtain ⟨htouches, hjob⟩ :=
    s.ledger.create_touches id params (maxRetries.getD s.config.maxRetries) s.now
  rw [submit_eq]
  obtain ⟨fault, -, hnot⟩ | ⟨job, ledger, hpending, hrewrites, hcases⟩ :=
    enqueue_cases (s.addJob id params maxRetries).2 id priority
  · exact absurd rfl (hnot _ hjob)
  · have htouched := htouches.trans hrewrites.toTouches
    obtain ⟨fault, heq, hout⟩ | ⟨position, heq, -⟩ | ⟨position, heq, hout, hfree, hroom⟩ := hcases
    · simp only [heq]
      obtain ⟨found, last, hfound, -, hforget, hlast, hnone⟩ | ⟨-, hall⟩ :=
        forget_cases { (s.addJob id params maxRetries).2 with ledger := ledger } id
      · rw [hforget]
        exact Step.refused (a := s.account lent) hmove (htouched.trans hlast) hnone
      · exact absurd hpending (hall { job with priority := some priority } hrewrites.after)
    · simp only [heq]
      exact Step.created (a := s.account lent) hmove htouched hrewrites.after hpending
    · simp only [heq]
      exact Step.submitted (a := s.account lent) hmove htouched hrewrites.after hpending rfl hout
        hfree hroom

theorem withdrawJob_step (s : State) (lent : List JobId) (id : JobId) :
    Step (.withdrawJob id) (s.account lent) ((s.withdrawJob id).2.account lent) := by
  unfold withdrawJob
  cases herase : s.queue.erase? id with
  | none => exact .same _ _
  | some queue =>
    obtain ⟨hqueued, rfl⟩ := Queue.erase?_eq_some herase
    obtain ⟨job, ledger, hjob, hpending, heq, htouches, hnone⟩ | ⟨heq, hall⟩ :=
      forget_cases { s with queue := s.queue.without id } id
    · simp only [heq]
      exact Step.discarded (a := s.account lent) hqueued hjob hpending htouches hnone
    · simp only [heq]
      exact Step.withdrawn (a := s.account lent) rfl hqueued hall

theorem evict_step (move : Move) (h : s.ledger.Distinct) (ttl now : Nat) :
    Step move (s.account lent) ((s.evict ttl now).2.account lent) :=
  Step.evicted (a := s.account lent) (Ledger.evict_sheds h ttl now)

-- A move leads from one state to another: the account makes a step, and whoever stands in front
-- of the gate is known.
def Leads (move : Move) (lent lent' : List JobId) (s s' : State) : Prop :=
  Step move (s.account lent) (s'.account lent') ∧ s'.Known

theorem leads_self (hknown : s.Known) : Leads move lent lent s s := ⟨.same _ _, hknown⟩

theorem leads_of_account {s' : State} (hknown : s.Known)
    (haccount : s'.account lent = s.account lent) (hcalls : s'.line.calls = s.line.calls)
    (hcallers : s'.callers = s.callers) : Leads move lent lent s s' := by
  refine ⟨?_, hknown.same hcalls hcallers⟩
  rw [haccount]
  exact .same _ _

theorem returnSlot_leads {job : JobId} (hknown : s.Known) (hlent : job ∈ lent)
    (hheld : job ∈ s.line.gate.holders) :
    Leads (.returnSlot job) lent (lent.erase job) s (s.returnSlot job).2 := by
  refine ⟨returnSlot_step hlent hheld, ?_⟩
  simp only [returnSlot]
  split
  · exact hknown
  · rename_i line hline
    exact hknown.release hline rfl rfl

theorem protect_leads (hknown : s.Known) (id : JobId) (path : String) :
    Leads move lent lent s (s.protect id path).2 := by
  unfold protect
  split
  · exact leads_of_account hknown rfl rfl rfl
  · exact leads_self hknown

theorem sweep_leads (hknown : s.Known) (dryRun : Bool) :
    Leads move lent lent s (s.apply (.sweep dryRun)) := by
  obtain heq | ⟨-, files, heq⟩ := s.apply_sweep_cases dryRun
  · rw [heq]
    exact leads_self hknown
  · rw [heq]
    exact leads_of_account hknown rfl rfl rfl

theorem setCaller_leads (hknown : s.Known) (tag : Nat) (phase : Phase) :
    Leads move lent lent s (s.setCaller tag phase) :=
  ⟨.same _ _, hknown.of (remembers_setCaller s tag phase) (fun _ hcall => hcall)⟩

theorem collect_leads (hknown : s.Known) (tag : Nat) :
    Leads move lent lent s (s.apply (.collect tag)) := by
  simp only [State.apply, withCaller]
  split
  · split
    · split
      · exact setCaller_leads hknown _ _
      · exact leads_self hknown
    · exact leads_self hknown
  · exact leads_self hknown

theorem beginTask_leads (h : (s.account lent).Balanced slots) (hknown : s.Known) (ticket : Nat) :
    Leads move lent lent s (s.apply (.beginTask ticket)) := by
  simp only [State.apply, withTask]
  cases htask : s.task? ticket with
  | none => exact leads_self hknown
  | some task =>
    simp only
    cases hstage : task.stage with
    | running _ => exact leads_self hknown
    | starting =>
      obtain ⟨hmem, -⟩ := task?_mem htask
      obtain ⟨line, hline, -⟩ := exists_release h hmem
      refine ⟨beginTask_step _ h hmem hstage, ?_⟩
      simp only [beginTask]
      split
      · exact hknown.same rfl rfl
      · simp only [freeSlot, hline]
        exact hknown.release hline rfl rfl

theorem report_leads (hknown : s.Known) (ticket percent : Nat) :
    Leads move lent lent s (s.apply (.report ticket percent)) := by
  simp only [State.apply, withTask]
  cases s.task? ticket with
  | none => exact leads_self hknown
  | some task =>
    simp only
    cases task.stage with
    | starting => exact leads_self hknown
    | running _ =>
      refine ⟨report_step _ _ _, ?_⟩
      simp only [report]
      split
      · exact hknown.same rfl rfl
      · exact hknown

theorem endTask_leads (h : (s.account lent).Balanced slots) (hknown : s.Known) (ticket : Nat)
    (result : Except Failure Artifact) :
    Leads (.endTask ticket result) lent lent s (s.apply (.endTask ticket result)) := by
  simp only [State.apply, withTask]
  cases htask : s.task? ticket with
  | none => exact leads_self hknown
  | some task =>
    simp only
    cases hstage : task.stage with
    | starting => exact leads_self hknown
    | running before =>
      obtain ⟨hmem, rfl⟩ := task?_mem htask
      obtain ⟨line, ledger, queue, registry, attempt, outcome, hline, heq, hafter⟩ :=
        exists_endTask_eq h hmem hstage result
      simp only [heq]
      refine ⟨?_, hknown.release hline rfl rfl⟩
      exact Step.ended (a := s.account lent) hmem hstage rfl (Line.release?_gate hline) hafter

theorem poll_leads (hknown : s.Known) : Leads move lent lent s (s.apply .poll) := by
  simp only [State.apply]
  split
  · split
    · obtain ⟨hcalls, hcallers⟩ := burstWithin_frame s.queue.length s
      exact ⟨.admitted (burstWithin_admits s.queue.length s lent), hknown.same hcalls hcallers⟩
    · exact leads_self hknown
  · exact leads_self hknown

theorem maintain_leads (h : s.ledger.Distinct) (hknown : s.Known) :
    Leads move lent lent s (s.apply .maintain) := by
  simp only [State.apply]
  split
  · rename_i upkeep _
    split
    · obtain ⟨limiter, files, next, heq⟩ := exists_maintain_eq s upkeep
      rw [heq]
      exact ⟨evict_step _ h _ _, hknown.same rfl rfl⟩
    · exact leads_self hknown
  · exact leads_self hknown

theorem firstLook_leads (hknown : s.Known) (tag : Nat) :
    Leads move lent (lent ++ (s.lends? (.firstLook tag)).toList) s
      (s.apply (.firstLook tag)) := by
  have hsame : Leads move lent (lent ++ []) s s := by
    rw [List.append_nil]
    exact leads_self hknown
  simp only [State.apply, withCaller, lends?, hears?]
  cases hcaller : s.caller? tag with
  | none => exact hsame
  | some caller =>
    have htag := caller?_tag hcaller
    simp only
    cases caller.phase with
    | fresh =>
      simp only [Option.bind_some, State.firstLook]
      split
      · rename_i hmissing
        rw [lendsTo?_run hmissing.1, Option.toList_none, List.append_nil]
        exact setCaller_leads hknown _ _
      · rcases hlook : s.line.lookFirst s.now ⟨caller.tag, caller.job, s.now + caller.timeout⟩ with
          ⟨line, verdict⟩
        refine ⟨look_step _ lent rfl hlook, hknown.hear (htag.symm ▸ hcaller) ?_ verdict⟩
        intro call hcall
        rcases Line.lookFirst_calls hlook hcall with hold | rfl
        · exact .inl hold
        · exact .inr ⟨rfl, rfl⟩
    | waiting => exact hsame
    | running => exact hsame
    | answered => exact hsame
    | abandoned => exact hsame

theorem nextLook_leads (hknown : s.Known) :
    Leads move lent (lent ++ (s.lends? .nextLook).toList) s s.nextLook := by
  simp only [State.nextLook, lends?, hears?]
  cases hresume : s.line.resume s.now with
  | none =>
    simp only [Option.bind_none, Option.toList_none, List.append_nil]
    exact leads_self hknown
  | some resumed =>
    obtain ⟨call, line, verdict⟩ := resumed
    obtain ⟨hwoken, hlook⟩ := Line.resume_cases hresume
    obtain ⟨caller, hcaller, hjob⟩ := hknown call (List.mem_append_right _ hwoken)
    have htag := caller?_tag hcaller
    have hcaller' : ({ s with line := line } : State).caller? call.tag = some caller := hcaller
    simp only [hcaller, hcaller', Option.map_some, Option.bind_some]
    refine ⟨lookAgain_step _ lent hjob hlook, hknown.hear (htag.symm ▸ hcaller) ?_ verdict⟩
    intro other hother
    rcases Line.lookAgain_calls hlook hother with hold | rfl
    · exact .inl hold
    · exact .inr ⟨htag.symm, hjob.symm⟩

theorem pass_leads (hknown : s.Known) (now : Nat) : Leads move lent lent s (s.pass now) := by
  unfold State.pass
  split
  · rename_i hpass
    obtain ⟨callers, heq, hremembers⟩ := exists_expireCallers_eq { s with now := now }
    rw [heq]
    refine ⟨.quiet (a := s.account lent) hpass.1 (Nat.le_refl _), ?_⟩
    exact hknown.of (s := s) hremembers (fun call hcall => Line.expire_calls hcall)
  · exact leads_self hknown

theorem abandon_leads (hknown : s.Known) (tag : Nat) :
    Leads move lent lent s (s.abandon tag) := by
  have hleft : Leads move lent lent s
      ({ s with line := s.line.withdraw tag }.setCaller tag .abandoned) := by
    constructor
    · convert Step.same move (s.account lent) using 1
      simp [account, setCaller]
    · exact hknown.of (s := s) (remembers_setCaller { s with line := _ } tag .abandoned)
        (fun call hcall => Line.withdraw_calls hcall)
  unfold abandon
  split
  · exact leads_self hknown
  · split
    · exact leads_self hknown
    · exact leads_self hknown
    · exact hleft

-- Most moves lend no slot and take none back.
theorem leads_make {l : Loans} (hlends : l.state.lends? move = none)
    (hmove : ∀ id, move ≠ .returnSlot id)
    (hleads : Leads move l.lent l.lent l.state (l.state.apply move)) :
    Leads move l.lent (l.make move).lent l.state (l.make move).state := by
  cases move with
  | returnSlot id => exact absurd rfl (hmove id)
  | _ => simpa only [Loans.make, hlends, Option.toList_none, List.append_nil] using hleads

theorem make_step_of_whole {l : Loans} (hwhole : move.isWhole = true) (hknown : l.state.Known)
    (hdistinct : l.state.ledger.Distinct) (hheld : ∀ job ∈ l.lent, job ∈ l.state.line.gate.holders)
    (hreturns : l.ReturnsOwn move) :
    Step move l.account (l.make move).account ∧ (l.make move).state.Known := by
  obtain ⟨s, lent⟩ := l
  cases move with
  | create id params maxRetries =>
    exact leads_make rfl (by simp) ⟨addJob_step rfl params maxRetries, hknown.same rfl rfl⟩
  | withdrawJob id =>
    obtain ⟨hline, hcallers⟩ := withdrawJob_frame s id
    exact leads_make rfl (by simp) ⟨withdrawJob_step s lent id,
      hknown.same (congrArg Line.calls hline) hcallers⟩
  | takeJob =>
    obtain ⟨hcalls, hcallers⟩ := takeJob_frame s
    exact ⟨takeJob_step _ s lent, hknown.same hcalls hcallers⟩
  | returnSlot id => exact returnSlot_leads hknown hreturns (hheld id hreturns)
  | askRate caller category =>
    exact leads_make rfl (by simp) (leads_of_account hknown rfl rfl rfl)
  | protect id path => exact leads_make rfl (by simp) (protect_leads hknown id path)
  | unprotect id => exact leads_make rfl (by simp) (leads_of_account hknown rfl rfl rfl)
  | evict =>
    exact leads_make rfl (by simp) ⟨evict_step _ hdistinct _ _, hknown.same rfl rfl⟩
  | sweep dryRun => exact leads_make rfl (by simp) (sweep_leads hknown dryRun)
  | start => exact leads_make rfl (by simp) (leads_of_account hknown rfl rfl rfl)
  | stop => exact leads_make rfl (by simp) (leads_of_account hknown rfl rfl rfl)
  | arrive job aim timeout =>
    exact leads_make rfl (by simp) ⟨.quiet (Nat.le_refl _) (Nat.le_succ _),
      hknown.of (remembers_arrive s job aim timeout) (fun _ hcall => hcall)⟩
  | abandon tag => exact leads_make rfl (by simp) (abandon_leads hknown tag)
  | firstLook tag => exact firstLook_leads hknown tag
  | nextLook => exact nextLook_leads hknown
  | collect tag => exact leads_make rfl (by simp) (collect_leads hknown tag)
  | report ticket percent =>
    exact leads_make rfl (by simp) (report_leads hknown ticket percent)
  | poll => exact leads_make rfl (by simp) (poll_leads hknown)
  | maintain => exact leads_make rfl (by simp) (maintain_leads hdistinct hknown)
  | pass now => exact leads_make rfl (by simp) (pass_leads hknown now)
  | _ => cases hwhole

theorem make_step {l : Loans} (hknown : l.state.Known) (h : l.account.Balanced slots)
    (hreturns : l.ReturnsOwn move) :
    Step move l.account (l.make move).account ∧ (l.make move).state.Known := by
  have hheld : ∀ job ∈ l.lent, job ∈ l.state.line.gate.holders := fun job hjob =>
    h.holders.mem_iff.mpr (List.mem_append_right _ hjob)
  cases move with
  | submit id params priority maxRetries =>
    obtain ⟨hline, hcallers⟩ := submit_frame l.state id params priority maxRetries
    exact leads_make rfl (by simp) ⟨submit_step rfl params priority maxRetries,
      hknown.same (congrArg Line.calls hline) hcallers⟩
  | enqueue id priority =>
    obtain ⟨hline, hcallers⟩ := enqueue_frame l.state id priority
    exact leads_make rfl (by simp) ⟨enqueue_step _ id priority,
      hknown.same (congrArg Line.calls hline) hcallers⟩
  | beginTask ticket => exact leads_make rfl (by simp) (beginTask_leads h hknown ticket)
  | endTask ticket result =>
    exact leads_make rfl (by simp) (endTask_leads h hknown ticket result)
  | _ => exact make_step_of_whole rfl hknown h.distinct hheld hreturns

end Foreman.Engine.Account
