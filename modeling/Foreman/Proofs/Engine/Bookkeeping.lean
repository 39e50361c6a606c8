import Foreman.Proofs.Engine.Annals
import Foreman.Proofs.Engine.Custody
import Foreman.Proofs.Engine.Reports

namespace Foreman

-- The counter for an outcome.
def Tally.of (t : Tally) : Outcome → Nat
  | .completed => t.completed
  | .retried => t.retried
  | .failed => t.failed
  | .skipped => t.skipped

theorem Tally.of_begin (t : Tally) (outcome : Outcome) : t.begin.of outcome = t.of outcome := by
  cases outcome <;> rfl

theorem Tally.of_finish (t : Tally) (outcome other : Outcome) :
    (t.finish outcome).of other = t.of other + if outcome = other then 1 else 0 := by
  cases outcome <;> cases other <;> rfl

theorem Tally.attempts_eq_finish (t : Tally) (outcome : Outcome) :
    (t.finish outcome).attempts = t.attempts + 1 := by
  cases outcome <;> rfl

theorem Tally.inFlight_finish (t : Tally) (outcome : Outcome) :
    (t.finish outcome).inFlight = t.inFlight - 1 := by
  cases outcome <;> rfl

-- How many of the attempts went this way.
def tallied (records : List AttemptRecord) (outcome : Outcome) : Nat :=
  records.countP (fun r => r.outcome = outcome)

theorem tallied_append (first second : List AttemptRecord) (outcome : Outcome) :
    tallied (first ++ second) outcome = tallied first outcome + tallied second outcome :=
  List.countP_append

theorem tallied_singleton (r : AttemptRecord) (outcome : Outcome) :
    tallied [r] outcome = if r.outcome = outcome then 1 else 0 := by
  simp [tallied, List.countP_singleton]

-- Every attempt went one of the four ways.
theorem length_eq_tallied (records : List AttemptRecord) :
    records.length = tallied records .completed + tallied records .retried +
      tallied records .failed + tallied records .skipped := by
  induction records with
  | nil => rfl
  | cons r rest ih =>
    have hsplit : ∀ outcome, tallied (r :: rest) outcome =
        (if r.outcome = outcome then 1 else 0) + tallied rest outcome := by
      intro outcome
      rw [← tallied_singleton, ← tallied_append, List.singleton_append]
    rw [hsplit, hsplit, hsplit, hsplit, List.length_cons, ih]
    cases r.outcome <;> simp <;> omega

-- The job is in the ledger and has this status.
def Ledger.Stands (l : Ledger) (id : JobId) (status : Status) : Prop :=
  ∃ job, l.get? id = some job ∧ job.status = status

-- What a report says of the attempt that it is about is true of the ledger and the queue when
-- the attempt is over: it brought its job to where the report says, or it never began and
-- leaves the ledger as it is.
def AttemptRecord.Holds (r : AttemptRecord) (task : Engine.Task) (before after : Ledger)
    (queue : Queue) : Prop :=
  match r.outcome with
  | .completed => task.stage.isRunning = true ∧ after.Stands r.job .completed
  | .retried => task.stage.isRunning = true ∧ after.Stands r.job .retrying ∧ r.job ∈ queue.order
  | .failed => task.stage.isRunning = true ∧ after.Stands r.job .failed
  | .skipped => task.stage.isRunning = false ∧ after = before

namespace Engine

open Account

variable {s : State} {a : Annals} {move : Move} {l : Loans} {moves : List Move} {slots : Nat}
  {task : Task} {tasks : List Task} {b : Blueprint} {around : Surroundings} {t : Timeline}

-- The attempts that have begun and are not over.
def underway (tasks : List Task) : List Task := tasks.filter (fun task => task.stage.isRunning)

theorem length_underway_without (htickets : (tasks.map Task.ticket).Nodup) (htask : task ∈ tasks) :
    (underway tasks).length =
      (underway (without tasks task.ticket)).length + if task.stage.isRunning then 1 else 0 := by
  have hperm : tasks.Perm (task :: without tasks task.ticket) :=
    Keyed.perm_cons_filter htickets htask
  have hunderway : (underway tasks).Perm (underway (task :: without tasks task.ticket)) :=
    hperm.filter _
  rw [hunderway.length_eq]
  by_cases hrunning : task.stage.isRunning = true
  · simp [underway, hrunning]
  · simp [underway, hrunning]

theorem without_staged (tasks : List Task) (ticket : Nat) (stage : Stage) :
    without (staged tasks ticket stage) ticket = without tasks ticket := by
  induction tasks with
  | nil => rfl
  | cons first rest ih =>
    simp only [without, staged, List.map_cons] at ih ⊢
    by_cases hticket : first.ticket = ticket
    · rw [if_pos hticket, List.filter_cons_of_neg (by simpa using hticket),
        List.filter_cons_of_neg (by simpa using hticket), ih]
    · rw [if_neg hticket, List.filter_cons_of_pos (by simpa using hticket),
        List.filter_cons_of_pos (by simpa using hticket), ih]

theorem length_underway_staged (htickets : (tasks.map Task.ticket).Nodup) (htask : task ∈ tasks)
    (hstage : task.stage = .starting) (job : Job) :
    (underway (staged tasks task.ticket (.running job))).length = (underway tasks).length + 1 := by
  have hmem : { task with stage := .running job } ∈ staged tasks task.ticket (.running job) :=
    mem_staged.mpr (.inr ⟨task, htask, rfl, rfl⟩)
  have hstaged := length_underway_without (staged_tickets.symm ▸ htickets) hmem
  have htasks := length_underway_without htickets htask
  have hbefore : (if task.stage.isRunning then 1 else 0) = 0 := by rw [hstage]; rfl
  have hafter : (if (Stage.running job).isRunning then 1 else 0) = 1 := rfl
  simp only [without_staged, hafter] at hstaged
  rw [hbefore] at htasks
  omega

-- What a move reports: nothing, or how an attempt went that is over.
structure Tells (s : State) (a : Annals) (records : List AttemptRecord) : Prop where
  reported : a.reported = s.audit.reported ++ records
  single : records = [] ∨ ∃ task ∈ s.tasks, ∃ r, records = [r] ∧ r.job = task.job ∧
    (∀ other ∈ a.tasks, other.ticket ≠ task.ticket) ∧ r.Holds task s.ledger a.ledger a.queue

theorem Tells.nothing (h : a.reported = s.audit.reported) : Tells s a [] :=
  ⟨h.trans (List.append_nil _).symm, .inl rfl⟩

theorem Tells.attempt {r : AttemptRecord} (htask : task ∈ s.tasks) (hjob : r.job = task.job)
    (htasks : a.tasks = without s.tasks task.ticket)
    (hreported : a.reported = s.audit.reported ++ [r])
    (hholds : r.Holds task s.ledger a.ledger a.queue) : Tells s a [r] := by
  refine ⟨hreported, .inr ⟨task, htask, r, rfl, hjob, fun other hother => ?_, hholds⟩⟩
  rw [htasks] at hother
  exact (mem_without.mp hother).2

-- How an attempt is concluded is how it is reported.
theorem holds_of_concludes {job next before : Job} {result : Except Failure Artifact}
    {queue : Queue} {outcome : Outcome} {ledger : Ledger} {r : AttemptRecord}
    (hstage : task.stage = .running before) (hjob : r.job = task.job)
    (houtcome : r.outcome = outcome)
    (hconcludes : s.Concludes task.requeues job result next queue outcome)
    (hrewrites : s.ledger.Rewrites task.job job next ledger) :
    r.Holds task s.ledger ledger queue := by
  have hrunning : task.stage.isRunning = true := by rw [hstage]; rfl
  have hstands : ∀ status, next.status = status → ledger.Stands r.job status := by
    intro status hstatus
    exact ⟨next, hjob ▸ hrewrites.after, hstatus⟩
  unfold AttemptRecord.Holds
  rw [houtcome]
  cases hconcludes with
  | completed artifact => exact ⟨hrunning, hstands _ rfl⟩
  | retried hrequeues hbudget hroom =>
    have hid : job.id = task.job := (Ledger.get?_mem hrewrites.before).2
    refine ⟨hrunning, hstands _ rfl, ?_⟩
    rw [hjob, Queue.mem_order_joined, hid]
    exact .inl rfl
  | crowdedOut hrequeues hbudget hfull => exact ⟨hrunning, hstands _ rfl⟩
  | exhausted hrequeues hbudget => exact ⟨hrunning, hstands _ rfl⟩
  | direct hrequeues => exact ⟨hrunning, hstands _ rfl⟩
  | nonRetriable reason => exact ⟨hrunning, hstands _ rfl⟩
  | unexpected chain => exact ⟨hrunning, hstands _ rfl⟩

theorem Annals.Writes.tells {calls : Option JobId} (hwrites : Writes s move calls a) :
    ∃ records, Tells s a records := by
  cases hwrites with
  | dispatched hdispatches => exact ⟨[], .nothing (dispatches_frame hdispatches).2.2.2⟩
  | @skipped task hmove htask hstage hover =>
    have hstarting : task.stage.isRunning = false := by rw [hstage]; rfl
    exact ⟨_, .attempt htask rfl rfl rfl ⟨hstarting, rfl⟩⟩
  | ended htask hmove hstage hstatus hout hconcludes hrewrites =>
    exact ⟨_, .attempt htask rfl rfl rfl (holds_of_concludes hstage rfl rfl hconcludes hrewrites)⟩
  | _ => exact ⟨[], .nothing rfl⟩

theorem Loans.Regular.tells (h : l.Regular slots) (hfresh : l.state.NamesAfresh move) :
    Tells l.state (l.state.apply move).annals (l.state.emitted [move]) := by
  obtain ⟨records, htells⟩ := Annals.Writes.tells (Annals.make_writes h hfresh)
  have hreported : l.state.audit.reported ++ l.state.emitted [move] =
      l.state.audit.reported ++ records :=
    (State.reported_run l.state [move]).symm.trans htells.reported
  rw [List.append_cancel_left hreported]
  exact htells

-- What the statistics of an engine say, beside the attempts that were reported.
structure Accounted (slots : Nat) (records : List AttemptRecord) (s : State) : Prop where
  attempts : s.load.tally.attempts = records.length
  sum : s.load.tally.attempts = s.load.tally.completed + s.load.tally.retried +
    s.load.tally.failed + s.load.tally.skipped
  outcomes : ∀ outcome, s.load.tally.of outcome = tallied records outcome
  inFlight : s.load.tally.inFlight = (underway s.tasks).length
  held : s.load.tally.inFlight ≤ s.load.slotsInUse
  bounded : s.load.slotsInUse ≤ s.load.slots
  slots : s.load.slots = slots

-- However an engine is used: a move reports one attempt at most, and that truthfully.
theorem tells_of_build (hbuild : b.build around = .ok t)
    (hlawful : (Loans.ofState t.state).Lawful moves) {earlier later : List Move}
    (hmoves : moves = earlier ++ move :: later) :
    Tells (t.state.run earlier) (t.state.run (earlier ++ [move])).annals
      ((t.state.run earlier).emitted [move]) := by
  obtain ⟨hearlier, ⟨-, hfresh⟩, -⟩ := Loans.follows_append.mp (hmoves ▸ hlawful)
  have hregular := Loans.Lawful.regular hearlier (Blueprint.regular_of_build hbuild)
  have htells := hregular.tells hfresh
  rw [Loans.run_ofState] at htells
  rw [State.run_append]
  exact htells

-- The attempts that were reported since an earlier state.
def State.reportedSince (s earlier : State) : List AttemptRecord :=
  s.audit.reported.drop earlier.audit.reported.length

theorem State.reportedSince_run (s : State) (first second : List Move) :
    (s.run (first ++ second)).reportedSince (s.run first) = (s.run first).emitted second := by
  rw [run_append]
  rfl

theorem State.reportedSince_split (s : State) (first second third : List Move) :
    (s.run (first ++ second ++ third)).reportedSince s = (s.run first).reportedSince s ++
      (s.run (first ++ second)).reportedSince (s.run first) ++
      (s.run (first ++ second ++ third)).reportedSince (s.run (first ++ second)) := by
  rw [reportedSince_run, reportedSince_run, run_append s first second]
  exact (s.emitted_append (first ++ second) third).trans
    (by rw [s.emitted_append first second, run_append]; rfl)

end Engine

end Foreman
