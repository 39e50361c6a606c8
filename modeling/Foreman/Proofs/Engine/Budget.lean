import Foreman.Proofs.Engine.Names
import Foreman.Proofs.Engine.Threads

namespace Foreman

-- The status that an attempt leaves its job in for good.
def Outcome.final? : Outcome → Option Status
  | completed => some .completed
  | failed => some .failed
  | retried | skipped => none

theorem Outcome.isTerminal_of_final? {outcome : Outcome} {status : Status}
    (h : outcome.final? = some status) : status.isTerminal = true := by
  cases outcome <;> cases h <;> rfl

namespace Engine

variable {b : Blueprint} {around : Surroundings} {t : Timeline} {s : State} {l : Loans}
  {move : Move} {moves earlier later : List Move} {slots limit count : Nat} {id : JobId}
  {life life' : Life} {calls : Bool} {job next : Job}

namespace State

-- The jobs for which the operation is called in a run, once for each call.
def called (s : State) : List Move → List JobId
  | [] => []
  | move :: moves => (s.calls? move).toList ++ (s.apply move).called moves

theorem called_append (s : State) (first second : List Move) :
    s.called (first ++ second) = s.called first ++ (s.run first).called second := by
  induction first generalizing s with
  | nil => rfl
  | cons move moves ih =>
    simp only [List.cons_append, called, ih, List.append_assoc]
    rfl

-- What the books say about the attempts at a job, those that were skipped apart.
def attemptsAt (s : State) (id : JobId) : List AttemptRecord := (s.life id).attempts

end State

theorem count_calls (s : State) (move : Move) (id : JobId) :
    (s.calls? move).toList.count id = (s.calls? move == some id).toNat := by
  cases hcalls : s.calls? move with
  | none => rfl
  | some other =>
    by_cases he : other = id
    · simp [he]
    · have hnot : (some other == some id) = false := by simpa using he
      rw [hnot, Option.toList_some, List.count_singleton, if_neg (by simpa using he)]
      rfl

namespace Life

def running (life : Life) : List Task := life.tasks.filter (fun task => task.stage.isRunning)

-- How far a job has come: it is to be tried for the first time or again after as many attempts as
-- there were retries; it is over with its last attempt, and has left by eviction since or not; or
-- it was discarded.
inductive Course (limit : Nat) (life : Life) : Prop
  | going {job : Job} (hjob : life.record = some job) (hlive : job.status.isTerminal = false)
      (hlimit : job.maxRetries = limit) (hbudget : job.retries ≤ limit)
      (hretried : ∀ report ∈ life.attempts, report.outcome = .retried)
      (hcount : life.attempts.length = job.retries)
  | finished {job : Job} {before last} (hjob : life.record = some job)
      (hlimit : job.maxRetries = limit) (hbudget : job.retries ≤ limit)
      (hattempts : life.attempts = before ++ [last])
      (hretried : ∀ report ∈ before, report.outcome = .retried) (hcount : before.length ≤ limit)
      (hlast : last.outcome.final? = some job.status)
  | evicted {before last} (hnone : life.record = none) (hevicted : life.isEvicted = true)
      (hattempts : life.attempts = before ++ [last])
      (hretried : ∀ report ∈ before, report.outcome = .retried) (hcount : before.length ≤ limit)
  | discarded (hnone : life.record = none)
      (hretried : ∀ report ∈ life.attempts, report.outcome = .retried)
      (hcount : life.attempts.length ≤ limit)

namespace Course

theorem same (h : life.Course limit) (hrecord : life'.record = life.record)
    (hattempts : life'.attempts = life.attempts) (hevicted : life'.isEvicted = life.isEvicted) :
    life'.Course limit := by
  cases h with
  | going hjob hlive hlimit hbudget hretried hcount =>
    exact .going (hrecord.trans hjob) hlive hlimit hbudget (hattempts ▸ hretried)
      (hattempts ▸ hcount)
  | finished hjob hlimit hbudget hbefore hretried hcount hlast =>
    exact .finished (hrecord.trans hjob) hlimit hbudget (hattempts.trans hbefore) hretried hcount
      hlast
  | evicted hnone hgone hbefore hretried hcount =>
    exact .evicted (hrecord.trans hnone) (hevicted.trans hgone) (hattempts.trans hbefore) hretried
      hcount
  | discarded hnone hretried hcount =>
    exact .discarded (hrecord.trans hnone) (hattempts ▸ hretried) (hattempts ▸ hcount)

theorem limits (h : life.Course limit) (hjob : life.record = some job) :
    job.maxRetries = limit ∧ job.retries ≤ limit := by
  cases h with
  | going hfound _ hlimit hbudget _ _ =>
    obtain rfl := Option.some_inj.mp (hjob.symm.trans hfound)
    exact ⟨hlimit, hbudget⟩
  | finished hfound hlimit hbudget _ _ _ _ =>
    obtain rfl := Option.some_inj.mp (hjob.symm.trans hfound)
    exact ⟨hlimit, hbudget⟩
  | evicted hnone _ _ _ _ => cases hnone.symm.trans hjob
  | discarded hnone _ _ => cases hnone.symm.trans hjob

-- A job that is not over was tried once for each retry.
theorem live (h : life.Course limit) (hjob : life.record = some job)
    (hlive : job.status.isTerminal = false) :
    (∀ report ∈ life.attempts, report.outcome = .retried) ∧
      life.attempts.length = job.retries := by
  cases h with
  | going hfound _ _ _ hretried hcount =>
    obtain rfl := Option.some_inj.mp (hjob.symm.trans hfound)
    exact ⟨hretried, hcount⟩
  | finished hfound _ _ _ _ _ hlast =>
    obtain rfl := Option.some_inj.mp (hjob.symm.trans hfound)
    rw [Outcome.isTerminal_of_final? hlast] at hlive
    cases hlive
  | evicted hnone _ _ _ _ => cases hnone.symm.trans hjob
  | discarded hnone _ _ => cases hnone.symm.trans hjob

theorem revised (h : life.Course limit) (hjob : life.record = some job)
    (hlive : job.status.isTerminal = false) (hnext : life'.record = some next)
    (hnextLive : next.status.isTerminal = false) (hlimit : next.maxRetries = job.maxRetries)
    (hretries : next.retries = job.retries) (hattempts : life'.attempts = life.attempts) :
    life'.Course limit := by
  obtain ⟨hmax, hbudget⟩ := h.limits hjob
  obtain ⟨hretried, hcount⟩ := h.live hjob hlive
  exact .going hnext hnextLive (hlimit.trans hmax) (hretries ▸ hbudget) (hattempts ▸ hretried)
    (by rw [hattempts, hretries, hcount])

end Course

-- The attempts at a job are numbered from one on, and the operation was called for each of them
-- and for the one that goes on.
structure Tried (limit count : Nat) (life : Life) : Prop where
  course : life.Course limit
  numbered : life.attempts.map AttemptRecord.attempt = List.range' 1 life.attempts.length
  counted : count = life.attempts.length + life.running.length

end Life

-- An attempt that ends is the last one, or it is one more retry.
theorem Life.Course.ended (h : life.Course limit) (hjob : life.record = some job)
    (hlive : job.status.isTerminal = false) {requeues : Bool} {result : Except Failure Artifact}
    {queue : Queue} {outcome : Outcome} {report : AttemptRecord}
    (hconcludes : s.Concludes requeues job result next queue outcome)
    (hnext : life'.record = some next) (hattempts : life'.attempts = life.attempts ++ [report])
    (houtcome : report.outcome = outcome) : life'.Course limit := by
  obtain ⟨hmax, hbudget⟩ := h.limits hjob
  obtain ⟨hretried, hcount⟩ := h.live hjob hlive
  have hlength : life.attempts.length ≤ limit := hcount ▸ hbudget
  cases hconcludes with
  | completed artifact =>
    exact .finished hnext hmax hbudget hattempts hretried hlength (by rw [houtcome]; rfl)
  | retried _ hroom _ =>
    refine .going hnext rfl hmax (hmax ▸ hroom) ?_ ?_
    · intro other hother
      rw [hattempts, List.mem_append, List.mem_singleton] at hother
      rcases hother with hother | rfl
      · exact hretried other hother
      · exact houtcome
    · rw [hattempts, List.length_append, hcount]
      rfl
  | crowdedOut _ hroom _ =>
    exact .finished hnext hmax (hmax ▸ hroom) hattempts hretried hlength (by rw [houtcome]; rfl)
  | exhausted _ _ =>
    exact .finished hnext hmax hbudget hattempts hretried hlength (by rw [houtcome]; rfl)
  | direct _ =>
    exact .finished hnext hmax hbudget hattempts hretried hlength (by rw [houtcome]; rfl)
  | nonRetriable _ =>
    exact .finished hnext hmax hbudget hattempts hretried hlength (by rw [houtcome]; rfl)
  | unexpected _ =>
    exact .finished hnext hmax hbudget hattempts hretried hlength (by rw [houtcome]; rfl)

theorem Life.Tried.ended (h : life.Tried limit count) (hrunning : life.running.length = 1)
    (hjob : life.record = some job) (hlive : job.status.isTerminal = false) {requeues : Bool}
    {result : Except Failure Artifact} {queue : Queue} {outcome : Outcome} {report : AttemptRecord}
    (hconcludes : s.Concludes requeues job result next queue outcome)
    (hnext : life'.record = some next) (htasks : life'.tasks = [])
    (hreports : life'.reports = life.reports ++ [report]) (houtcome : report.outcome = outcome)
    (hattempt : report.attempt = job.retries + 1) : life'.Tried limit count := by
  have hattempts : life'.attempts = life.attempts ++ [report] := by
    have hne := houtcome ▸ hconcludes.ne_skipped
    simp [Life.attempts, hreports, hne]
  obtain ⟨-, hcount⟩ := h.course.live hjob hlive
  refine ⟨h.course.ended hjob hlive hconcludes hnext hattempts houtcome, ?_, ?_⟩
  · rw [hattempts, List.map_append, h.numbered, List.length_append, List.length_singleton,
      List.range'_1_concat, hcount, List.map_singleton, hattempt, Nat.add_comm]
  · have hidle : life'.running = [] := by simp [Life.running, htasks]
    rw [h.counted, hrunning, hattempts, hidle, List.length_append]
    rfl

theorem Life.Course.gone (h : life.Course limit) (hjob : life.record = some job)
    (hnone : life'.record = none) (hattempts : life'.attempts = life.attempts)
    (hevicted : job.status.isTerminal = true → life'.isEvicted = true) : life'.Course limit := by
  cases h with
  | going _ _ _ hbudget hretried hcount =>
    exact .discarded hnone (hattempts ▸ hretried) (by rw [hattempts, hcount]; exact hbudget)
  | finished hfound _ _ hbefore hretried hcount hlast =>
    obtain rfl := Option.some_inj.mp (hjob.symm.trans hfound)
    exact .evicted hnone (hevicted (Outcome.isTerminal_of_final? hlast))
      (hattempts.trans hbefore) hretried hcount
  | evicted hgone _ _ _ _ => cases hgone.symm.trans hjob
  | discarded hgone _ _ => cases hgone.symm.trans hjob

theorem Turn.tried (hturn : Turn s move id calls life) (hname : move.names? ≠ some id)
    (h : (s.life id).Tried limit count) : life.Tried limit (count + calls.toNat) := by
  have hcourse := h.course
  have hsame : ∀ {life' : Life}, life'.attempts = (s.life id).attempts →
      life'.running.length = (s.life id).running.length → life'.Course limit →
      life'.Tried limit count := fun hattempts hrunning hcourse =>
    ⟨hcourse, hattempts ▸ h.numbered, by rw [hattempts, hrunning, h.counted]⟩
  -- An attempt at the job is all that there is of it, and is under way or not.
  have hrunning : ∀ {task : Task}, (s.life id).tasks = [task] →
      (s.life id).running.length = task.stage.isRunning.toNat := by
    intro task htasks
    simp only [Life.running, htasks]
    cases hstage : task.stage.isRunning <;> simp [hstage]
  cases hturn with
  | still => exact h
  | created _ _ hmove _ => exact absurd hmove hname
  | submitted hmove _ _ _ _ => exact absurd hmove hname
  | @prioritized job priority _ hjob hpending =>
    have hlive : job.status.isTerminal = false := by rw [hpending]; rfl
    exact hsame rfl rfl (hcourse.revised hjob hlive rfl hlive rfl rfl rfl)
  | @queued job entry priority hjob hpending _ =>
    have hlive : job.status.isTerminal = false := by rw [hpending]; rfl
    exact hsame rfl rfl (hcourse.revised hjob hlive rfl hlive rfl rfl rfl)
  | taken _ _ => exact hsame rfl rfl (hcourse.same rfl rfl rfl)
  | admitted ticket requeues htasks =>
    have hidle : (s.life id).running = [] := by simp [Life.running, htasks]
    refine hsame rfl ?_ (hcourse.same rfl rfl rfl)
    rw [hidle]
    rfl
  | @begun task job htasks hstage hjob hready =>
    have hlive : job.status.isTerminal = false := by
      by_contra hover
      rw [Status.canBecome_of_isTerminal (by simpa using hover)] at hready
      cases hready
    refine ⟨hcourse.revised hjob hlive rfl rfl rfl rfl rfl, h.numbered, ?_⟩
    rw [h.counted, hrunning htasks, hstage]
    rfl
  | skipped htasks hstage _ =>
    have hattempts : ∀ report : AttemptRecord, report.outcome = .skipped →
        ((s.life id).reports ++ [report]).filter (fun report => report.outcome != .skipped) =
          (s.life id).attempts := fun report hreport => by simp [Life.attempts, hreport]
    refine hsame (hattempts _ rfl) ?_ (hcourse.same rfl (hattempts _ rfl) rfl)
    rw [hrunning htasks, hstage]
    rfl
  | @progressed job percent hjob hstatus =>
    have hlive : job.status.isTerminal = false := by rw [hstatus]; rfl
    exact hsame rfl rfl (hcourse.revised hjob hlive rfl hlive rfl rfl rfl)
  | ended htasks hstage hjob hstatus _ hconcludes =>
    refine h.ended ?_ hjob (by rw [hstatus]; rfl) hconcludes rfl rfl rfl rfl rfl
    rw [hrunning htasks, hstage]
    rfl
  | claimed path _ => exact hsame rfl rfl (hcourse.same rfl rfl rfl)
  | released _ => exact hsame rfl rfl (hcourse.same rfl rfl rfl)
  | withdrawn _ _ _ => exact hsame rfl rfl (hcourse.same rfl rfl rfl)
  | discarded _ _ hjob hpending =>
    refine hsame rfl rfl (hcourse.gone hjob rfl rfl fun hover => ?_)
    rw [hpending] at hover
    cases hover
  | evicted hjob _ => exact hsame rfl rfl (hcourse.gone hjob rfl rfl fun _ => rfl)

theorem Life.New.tried (h : life.New []) : ∃ limit, life.Tried limit 0 := by
  obtain ⟨job, hjob, hpending, hretries⟩ := h.record
  have hidle : life.running = [] := by
    simp only [running, List.filter_eq_nil_iff]
    intro task htask hrunning
    rw [h.tasks task htask] at hrunning
    cases hrunning
  refine ⟨job.maxRetries, .going hjob (by rw [hpending]; rfl) rfl (by omega) ?_ ?_, ?_, ?_⟩
  · simp [h.attempts]
  · simp [h.attempts, hretries]
  · simp [h.attempts]
  · simp [h.attempts, hidle]

theorem Loans.Lawful.tried (hlawful : l.Lawful moves) (h : l.Regular slots)
    (htried : (l.state.life id).Tried limit count) (hid : id ∉ named moves) :
    ((l.run moves).state.life id).Tried limit (count + (l.state.called moves).count id) := by
  induction moves generalizing l count with
  | nil => exact htried
  | cons move moves ih =>
    obtain ⟨⟨hreturns, hfresh⟩, hlawful⟩ := hlawful
    have hname := names?_ne_of_not_mem hid List.mem_cons_self
    have hrest : id ∉ named moves := fun hmem =>
      hid (by simp only [named, List.filterMap_cons] at hmem ⊢; split <;> simp [hmem])
    have hnext := ih hlawful (h.make hreturns hfresh) ((h.turn hfresh id).tried hname htried) hrest
    rwa [← count_calls, Nat.add_assoc, ← List.count_append] at hnext

-- As long as a job has no name, nothing is known of it, and from then on its attempts are counted.
theorem tried_of_build (hbuild : b.build around = .ok t)
    (hhonest : (Loans.ofState t.state).Honest moves) (hapart : NamesApart moves)
    (hbooks : t.state.attemptsAt id = []) :
    (((t.state.run moves).life id).Unknown [] ∧ (t.state.called moves).count id = 0) ∨
      (id ∈ named moves ∧
        ∃ limit, ((t.state.run moves).life id).Tried limit ((t.state.called moves).count id)) := by
  induction moves using List.reverseRecOn with
  | nil =>
    refine .inl ⟨?_, rfl⟩
    rw [← hbooks]
    exact Blueprint.unknown_of_build hbuild hhonest hapart List.not_mem_nil
  | append_singleton moves last ih =>
    obtain ⟨hregular, hfresh, -⟩ := Blueprint.regular_midway hbuild hhonest hapart
    have hturn := hregular.turn hfresh id
    rw [Loans.make_state, Loans.run_ofState] at hturn
    have hcount : (t.state.called (moves ++ [last])).count id = (t.state.called moves).count id +
        ((t.state.run moves).calls? last == some id).toNat := by
      rw [State.called_append, List.count_append, ← count_calls]
      simp [State.called]
    rw [State.run_append, hcount]
    rcases ih (Loans.follows_append.mp hhonest).1 hapart.of_append with
      ⟨hunknown, hnever⟩ | ⟨hnamed, limit, htried⟩
    · obtain ⟨hcalls, hunknown | ⟨hname, hnew⟩⟩ := hunknown.turn_cases hturn
      · exact .inl ⟨hunknown, by rw [hnever, hcalls]; rfl⟩
      · obtain ⟨limit, htried⟩ := hnew.tried
        refine .inr ⟨List.mem_filterMap.mpr ⟨last, by simp, hname⟩, limit, ?_⟩
        rw [hnever, hcalls]
        exact htried
    · refine .inr ⟨by simp [named_append, hnamed], limit, hturn.tried ?_ htried⟩
      exact fun hname => (hapart.split hname).1 hnamed

-- A job that has a record at some point has a name by then, and with the record comes how often it
-- may be retried.
theorem tried_of_record (hbuild : b.build around = .ok t)
    (hhonest : (Loans.ofState t.state).Honest (earlier ++ later))
    (hapart : NamesApart (earlier ++ later)) (hbooks : t.state.attemptsAt id = [])
    (hjob : (t.state.run earlier).ledger.get? id = some job) :
    ((t.state.run (earlier ++ later)).life id).Tried job.maxRetries
      ((t.state.called (earlier ++ later)).count id) := by
  have hlawful := Blueprint.lawful_of_build hbuild hhonest hapart
  obtain ⟨hearlier, hlater⟩ := Loans.follows_append.mp hlawful
  rcases tried_of_build hbuild (Loans.follows_append.mp hhonest).1 hapart.of_append hbooks with
    ⟨hunknown, -⟩ | ⟨hnamed, limit, htried⟩
  · cases hunknown.record.symm.trans hjob
  · obtain rfl := (htried.course.limits hjob).1
    simp only [NamesApart, named_append] at hapart
    have hlast := Loans.Lawful.tried hlater
      (Loans.Lawful.regular hearlier (Blueprint.regular_of_build hbuild))
      (by rw [Loans.run_ofState]; exact htried) (List.disjoint_of_nodup_append hapart hnamed)
    rwa [← Loans.run_append, Loans.run_ofState, Loans.run_ofState, ← List.count_append,
      ← State.called_append] at hlast

-- How often a job was tried in a run, and how that went.
structure WithinBudget (s : State) (called : List JobId) (limit : Nat) (id : JobId) : Prop where
  numbered : (s.attemptsAt id).map AttemptRecord.attempt =
    List.range' 1 (s.attemptsAt id).length
  bounded : (s.attemptsAt id).length ≤ limit + 1
  retried : ∀ report ∈ (s.attemptsAt id).dropLast, report.outcome = .retried
  ended : ∀ report status, (s.attemptsAt id).getLast? = some report →
    report.outcome.final? = some status →
    (∃ job, s.ledger.get? id = some job ∧ job.status = status) ∨
      (s.ledger.get? id = none ∧ id ∈ s.evicted)
  called : called.count id ≤ limit + 1
  alone : ((tasksOf s.tasks id).filter (fun task => task.stage.isRunning)).length ≤ 1
  budget : ∀ job, s.ledger.get? id = some job → job.retries ≤ limit

theorem Life.Course.limited (h : life.Course limit) : life.attempts.length ≤ limit + 1 := by
  cases h with
  | going _ _ _ hbudget _ hcount => omega
  | finished _ _ _ hattempts _ hcount _ => simpa [hattempts] using hcount
  | evicted _ _ hattempts _ hcount => simpa [hattempts] using hcount
  | discarded _ _ hcount => omega

theorem Life.Course.retried (h : life.Course limit) :
    ∀ report ∈ life.attempts.dropLast, report.outcome = .retried := by
  cases h with
  | going _ _ _ _ hretried _ =>
    exact fun report hreport => hretried report (List.dropLast_subset _ hreport)
  | finished _ _ _ hattempts hretried _ _ => simpa [hattempts] using hretried
  | evicted _ _ hattempts hretried _ => simpa [hattempts] using hretried
  | discarded _ hretried _ =>
    exact fun report hreport => hretried report (List.dropLast_subset _ hreport)

-- A last attempt that was not to be repeated has left its mark on the job.
theorem Life.Course.ended_or_evicted (h : life.Course limit) {report : AttemptRecord}
    {status : Status} (hlast : life.attempts.getLast? = some report)
    (hfinal : report.outcome.final? = some status) :
    (∃ job, life.record = some job ∧ job.status = status) ∨
      (life.record = none ∧ life.isEvicted = true) := by
  have hnot : ¬ ∀ other ∈ life.attempts, other.outcome = .retried := by
    intro hretried
    rw [hretried report (List.mem_of_getLast? hlast)] at hfinal
    cases hfinal
  cases h with
  | going _ _ _ _ hretried _ => exact absurd hretried hnot
  | @finished job before last hjob _ _ hattempts _ _ hstatus =>
    have hsame : last = report := by simpa [hattempts] using hlast
    rw [hsame, hfinal] at hstatus
    exact .inl ⟨job, hjob, (Option.some_inj.mp hstatus).symm⟩
  | evicted hnone hevicted _ _ _ => exact .inr ⟨hnone, hevicted⟩
  | discarded _ hretried _ => exact absurd hretried hnot

theorem Loans.Regular.length_running_le (h : l.Regular slots) (id : JobId) :
    (l.state.life id).running.length ≤ 1 :=
  (List.length_filter_le _ _).trans (h.balanced.length_tasksOf_le id)

-- While an attempt goes on, its job has retries left or makes its last attempt.
theorem Loans.Regular.called_le (h : l.Regular slots)
    (htried : (l.state.life id).Tried limit count) : count ≤ limit + 1 := by
  have hcounted := htried.counted
  have hsingle := h.length_running_le id
  cases hrunning : (l.state.life id).running with
  | nil =>
    rw [hrunning] at hcounted
    exact hcounted ▸ htried.course.limited
  | cons task rest =>
    have htask : task ∈ (l.state.life id).running := hrunning ▸ List.mem_cons_self
    obtain ⟨htask, hunder⟩ := List.mem_filter.mp htask
    obtain ⟨hmem, rfl⟩ := mem_tasksOf.mp htask
    cases hstage : task.stage with
    | starting =>
      rw [hstage] at hunder
      cases hunder
    | running before =>
      obtain ⟨job, hjob, hstatus⟩ := h.faithful.running task hmem before hstage
      obtain ⟨-, hbudget⟩ := htried.course.limits hjob
      obtain ⟨-, hcount⟩ := htried.course.live hjob (by rw [hstatus]; rfl)
      omega

-- The attempts at a job are numbered in order, and all but the last were to be repeated; and the
-- operation is called for it at most once more than the job may be retried.
theorem within_budget_of_build (hbuild : b.build around = .ok t) (hmoves : moves = earlier ++ later)
    (hhonest : (Loans.ofState t.state).Honest moves) (hapart : NamesApart moves)
    (hbooks : t.state.attemptsAt id = [])
    (hjob : (t.state.run earlier).ledger.get? id = some job) :
    WithinBudget (t.state.run moves) (t.state.called moves) job.maxRetries id := by
  subst hmoves
  have hregular := (Blueprint.lawful_of_build hbuild hhonest hapart).regular
    (Blueprint.regular_of_build hbuild)
  have htried := tried_of_record hbuild hhonest hapart hbooks hjob
  rw [← Loans.run_ofState] at htried
  have hcourse := htried.course
  rw [← Loans.run_ofState t.state (earlier ++ later)]
  exact
    { numbered := htried.numbered
      bounded := hcourse.limited
      retried := hcourse.retried
      ended := fun report status hlast hfinal => by
        rcases hcourse.ended_or_evicted hlast hfinal with hover | ⟨hnone, hevicted⟩
        · exact .inl hover
        · exact .inr ⟨hnone, List.contains_iff_mem.mp hevicted⟩
      called := hregular.called_le htried
      alone := hregular.length_running_le id
      budget := fun found hfound => (hcourse.limits hfound).2 }

-- On one thread an attempt is reported before there is another one at its job.
theorem budget_on_one_thread (hbuild : b.build around = .ok t) (hmoves : moves = earlier ++ later)
    (hhonest : (Loans.ofState t.state).Honest moves) (hapart : NamesApart moves)
    (hbooks : t.state.attemptsAt id = [])
    (hjob : (Threads.onOneThread t.state earlier).state.ledger.get? id = some job) :
    WithinBudget (Threads.onOneThread t.state moves).state (t.state.called moves) job.maxRetries
      id := by
  rw [Threads.onOneThread_eq] at hjob ⊢
  exact within_budget_of_build hbuild hmoves hhonest hapart hbooks hjob

-- A job that may be retried once fails twice, and the engine stands still in between.
def spentRun : List Move :=
  [.submit ⟨1⟩ [] 5 (some 1), .start, .poll, .beginTask 0,
    .endTask 0 (.error (.retriable "busy")), .stop, .start, .poll, .beginTask 1,
    .endTask 1 (.error (.retriable "busy"))]

theorem budget_on_one_thread_spentRun :
    ∃ t job, (Blueprint.idle 1).build default = .ok t ∧ (Loans.ofState t.state).Honest spentRun ∧
      NamesApart spentRun ∧ t.state.attemptsAt ⟨1⟩ = [] ∧
      (Threads.onOneThread t.state (spentRun.take 1)).state.ledger.get? ⟨1⟩ = some job ∧
      job.maxRetries = 1 ∧
      WithinBudget (Threads.onOneThread t.state spentRun).state (t.state.called spentRun)
        job.maxRetries ⟨1⟩ ∧
      t.state.called spentRun = [⟨1⟩, ⟨1⟩] := by
  have hbuild : (Blueprint.idle 1).build default = .ok _ := rfl
  refine ⟨_, _, hbuild, ?_, ?_, rfl, rfl, rfl,
    budget_on_one_thread hbuild (List.take_append_drop 1 spentRun).symm ?_ ?_ rfl rfl, ?_⟩
  · decide
  · decide
  · decide
  · decide
  · decide

-- The second attempt is over and reported before the first one is.
def overtakenRun : List Step :=
  Threads.overlap ++ (Move.endTask 1 (.ok ⟨"out", 0, 0.0⟩)).steps ++ [.goOn 0, .goOn 0]

theorem overtakenRun_disorders :
    ∃ t, (Blueprint.idle 1).build default = .ok t ∧ t.state.attemptsAt ⟨1⟩ = [] ∧
      let after := (Threads.ofState t.state).run overtakenRun
      after.IsSettled ∧
      (after.state.attemptsAt ⟨1⟩).map AttemptRecord.attempt = [2, 1] ∧
      (after.state.attemptsAt ⟨1⟩).map AttemptRecord.outcome = [.completed, .retried] ∧
      ∀ called limit, ¬ WithinBudget after.state called limit ⟨1⟩ := by
  refine ⟨_, rfl, rfl, ?_, ?_, ?_, ?_⟩
  · decide
  · decide
  · decide
  · exact fun called limit hwithin => absurd hwithin.numbered (by decide)

end Engine

end Foreman
