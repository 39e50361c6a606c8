import Foreman.Proofs.Engine.Bookkeeping
import Foreman.Proofs.Engine.Interleavings

namespace Foreman.Engine

namespace Threads

open State (Sequel)

variable {t t' : Threads} {task : Task} {tail : Tail} {slots : Nat} {l : ThreadLoans}

-- The counters of an engine agree with the attempts that were reported and those that are counted
-- and still to be reported. Those in progress are the ones that go on or are still to be counted.
structure Books (records : List AttemptRecord) (t : Threads) : Prop where
  attempts : t.state.tally.attempts =
    records.length + Tail.count t.tails Option.isSome
  outcomes : ∀ outcome, t.state.tally.of outcome =
    tallied records outcome + Tail.count t.tails (fun counted => counted = some outcome)
  inFlight : t.state.tally.inFlight =
    (underway (ongoing t.state.tasks t.tails)).length + Tail.count t.tails Option.isNone

namespace Books

variable {records : List AttemptRecord} {lent : List JobId}

theorem of_same (h : Books records t) (htally : t'.state.tally = t.state.tally)
    (htails : t'.tails = t.tails)
    (htasks : underway (ongoing t'.state.tasks t.tails) =
      underway (ongoing t.state.tasks t.tails)) : Books records t' where
  attempts := by
    rw [htally, htails]
    exact h.attempts
  outcomes := fun outcome => by
    rw [htally, htails]
    exact h.outcomes outcome
  inFlight := by
    rw [htally, htails, htasks]
    exact h.inFlight

theorem moved (h : Books records t) {s : State} (hkeeps : t.state.KeepsAttempts s) :
    Books records (t.withState s) := by
  obtain ⟨more, htasks, hstarting⟩ := hkeeps.tasks
  refine h.of_same hkeeps.tally rfl ?_
  have hnone : underway (ongoing more t.tails) = [] := by
    refine List.filter_eq_nil_iff.mpr fun task htask => ?_
    rw [hstarting task (List.mem_filter.mp htask).1]
    exact Bool.false_ne_true
  have happend : underway (ongoing (t.state.tasks ++ more) t.tails) =
      underway (ongoing t.state.tasks t.tails) ++ underway (ongoing more t.tails) := by
    rw [ongoing, List.filter_append, underway, List.filter_append]
    rfl
  rw [withState, htasks, happend, hnone, List.append_nil]

theorem begun (h : Books records t) (hsound : t.Sound slots lent) (htask : task ∈ t.state.tasks)
    (hstage : task.stage = .starting) (hspared : Tail.spares t.tails task.ticket = true) (job : Job)
    (ledger : Ledger) : Books records (t.withState { t.state with
      ledger := ledger
      tasks := Account.staged t.state.tasks task.ticket (.running job)
      tally := t.state.tally.begin }) where
  attempts := h.attempts
  outcomes := fun outcome => (Tally.of_begin t.state.tally outcome).trans (h.outcomes outcome)
  inFlight := by
    have htickets : ((ongoing t.state.tasks t.tails).map Task.ticket).Nodup :=
      hsound.shared.tickets.sublist (List.filter_sublist.map _)
    have hstaged := length_underway_staged htickets (mem_ongoing htask hspared) hstage job
    rw [ongoing, ← filter_staged] at hstaged
    have hbegun : t.state.tally.begin.inFlight = t.state.tally.inFlight + 1 := rfl
    simp only [withState, hbegun, h.inFlight, ongoing, hstaged]
    exact Nat.add_right_comm _ _ _

-- From its end on an attempt is no longer among those that go on, and is still to be counted.
theorem ends (h : Books records t) (hsound : t.Sound slots lent) (htask : task ∈ t.state.tasks)
    (hspared : Tail.spares t.tails task.ticket = true) {s : State}
    (htasks : s.tasks = t.state.tasks) (hattempts : s.tally.attempts = t.state.tally.attempts)
    (hof : ∀ outcome, s.tally.of outcome = t.state.tally.of outcome)
    (hflight : s.tally.inFlight =
      t.state.tally.inFlight + if task.stage.isRunning then 0 else 1)
    {attempt : Nat} {sequel : Sequel} :
    Books records { t with
      state := s
      tails := t.tails ++ [⟨task.ticket, task.job, attempt, .slot sequel⟩] } where
  attempts := by
    rw [hattempts, h.attempts, Tail.count_append]
    rfl
  outcomes := fun outcome => by
    rw [hof, h.outcomes, Tail.count_append]
    rfl
  inFlight := by
    have htickets : ((ongoing t.state.tasks t.tails).map Task.ticket).Nodup :=
      hsound.shared.tickets.sublist (List.filter_sublist.map _)
    have hlength := length_underway_without htickets (mem_ongoing htask hspared)
    have hmore := Tail.count_append t.tails ⟨task.ticket, task.job, attempt, .slot sequel⟩
      Option.isNone
    rw [if_pos (by rfl)] at hmore
    simp only [hflight, htasks, ongoing_ends, hmore, h.inFlight, hlength]
    split <;> omega

theorem goesOn (h : Books records t) (hsound : t.Sound slots lent) (htail : tail ∈ t.tails)
    {s : State} (htally : s.tally = t.state.tally) (htasks : s.tasks = t.state.tasks) {rest : Rest}
    (hrest : rest.counted? = tail.rest.counted?) :
    Books records { t with state := s, tails := Tail.advanced t.tails tail.ticket rest } := by
  have hcount : ∀ p, Tail.count (Tail.advanced t.tails tail.ticket rest) p =
      Tail.count t.tails p := by
    intro p
    have hmoved := Tail.count_advanced hsound.shared.single htail rest p
    rw [hrest] at hmoved
    exact Nat.add_right_cancel hmoved
  refine ⟨?_, fun outcome => ?_, ?_⟩
  · simp only [htally, hcount]
    exact h.attempts
  · simp only [htally, hcount]
    exact h.outcomes outcome
  · simp only [htally, htasks, ongoing_advanced, hcount]
    exact h.inFlight

theorem counted (h : Books records t) (hsound : t.Sound slots lent) (htail : tail ∈ t.tails)
    {outcome : Outcome} (hrest : tail.rest = .counters outcome) :
    Books records { t with
      state := { t.state with tally := t.state.tally.finish outcome }
      tails := Tail.advanced t.tails tail.ticket (.audit outcome) } := by
  have hcount := Tail.count_advanced hsound.shared.single htail (.audit outcome)
  have hbefore : tail.rest.counted? = none := by rw [hrest]; rfl
  have hafter : (Rest.audit outcome).counted? = some outcome := rfl
  simp only [hbefore, hafter] at hcount
  refine ⟨?_, fun other => ?_, ?_⟩
  · have hmore := hcount Option.isSome
    simp only [Option.isSome_none, Option.isSome_some, Bool.false_eq_true, if_false, if_true,
      Nat.add_zero] at hmore
    simp only [Tally.attempts_eq_finish, h.attempts, hmore, Nat.add_assoc]
  · have hmore := hcount fun counted => counted = some other
    simp only [reduceCtorEq, decide_false, Bool.false_eq_true, if_false, Nat.add_zero,
      Option.some_inj, decide_eq_true_eq] at hmore
    simp only [Tally.of_finish, h.outcomes, hmore, Nat.add_assoc]
  · have hless := hcount Option.isNone
    simp only [Option.isNone_none, Option.isNone_some, Bool.false_eq_true, if_false, if_true,
      Nat.add_zero] at hless
    simp only [Tally.inFlight_finish, ongoing_advanced, h.inFlight, ← hless]
    rfl

theorem reported (h : Books records t) (hsound : t.Sound slots lent) (htail : tail ∈ t.tails)
    {outcome : Outcome} (hrest : tail.rest = .audit outcome) (r : AttemptRecord)
    (hr : r.outcome = outcome) :
    Books (records ++ [r]) { t with
      state := { t.state with
        audit := t.state.audit.push r
        tasks := Account.without t.state.tasks tail.ticket }
      tails := Tail.without t.tails tail.ticket } := by
  have hcount := Tail.count_without hsound.shared.single htail
  have hbefore : tail.rest.counted? = some outcome := by rw [hrest]; rfl
  simp only [hbefore] at hcount
  refine ⟨?_, fun other => ?_, ?_⟩
  · have hless := hcount Option.isSome
    simp only [Option.isSome_some, if_true] at hless
    simp only [h.attempts, hless, List.length_append, List.length_singleton]
    omega
  · have hless := hcount fun counted => counted = some other
    simp only [Option.some_inj, decide_eq_true_eq] at hless
    simp only [h.outcomes, hless, tallied_append, tallied_singleton, hr]
    omega
  · have hsame := hcount Option.isNone
    simp only [Option.isNone_some, Bool.false_eq_true, if_false, Nat.add_zero] at hsame
    simp only [ongoing_closes htail, h.inFlight, hsame]

end Books

-- What a step adds to the reports, it adds to the books.
theorem Books.apply {records : List AttemptRecord} {lent : List JobId} (h : Books records t)
    (hsound : t.Sound slots lent) (step : Step) :
    ∃ more : List AttemptRecord,
      (t.apply step).state.audit = more.foldl Audit.push t.state.audit ∧
        Books (records ++ more) (t.apply step) := by
  have hsilent : ∀ t', t'.state.audit = t.state.audit → Books records t' →
      ∃ more : List AttemptRecord, t'.state.audit = more.foldl Audit.push t.state.audit ∧
        Books (records ++ more) t' := by
    intro t' haudit hbooks
    exact ⟨[], haudit, (List.append_nil records).symm ▸ hbooks⟩
  have hturns := t.turns_apply step
  generalize t.apply step = next at hturns
  cases hturns with
  | idle hstep => exact hsilent _ rfl h
  | @moved move hwhole =>
    have hkeeps := t.state.keepsAttempts_apply hwhole
    exact hsilent _ hkeeps.audit (h.moved hkeeps)
  | begun htask hstage hspared hok =>
    exact hsilent _ rfl (h.begun hsound htask hstage hspared _ _)
  | skipped htask hstage hspared herror =>
    refine hsilent _ rfl (h.ends hsound htask hspared ?_ ?_ ?_ ?_)
    · rfl
    · rfl
    · exact Tally.of_begin t.state.tally
    · rw [hstage]
      rfl
  | settled htask hstage hspared hsettle =>
    refine hsilent _ rfl (h.ends hsound htask hspared ?_ ?_ ?_ ?_)
    · rfl
    · rfl
    · exact fun _ => rfl
    · rw [hstage]
      rfl
  | @freed tail sequel htail hrest =>
    obtain ⟨line, heq⟩ := t.state.exists_freeSlot_eq tail.job
    rw [heq]
    refine hsilent _ rfl (h.goesOn hsound htail ?_ ?_ ?_)
    · rfl
    · rfl
    · rw [hrest]
      rfl
  | followed htail hrest hfollow =>
    refine hsilent _ rfl (h.goesOn hsound htail ?_ ?_ ?_)
    · rfl
    · rfl
    · rw [hrest]
      rfl
  | counted htail hrest => exact hsilent _ rfl (h.counted hsound htail hrest)
  | reported htail hrest => exact ⟨[_], rfl, h.reported hsound htail hrest _ rfl⟩
  | asked requests hstep => exact hsilent _ rfl (h.of_same rfl rfl rfl)
  | filed requests hok => exact hsilent _ rfl (h.of_same rfl rfl rfl)
  | queued requests hrequest hfiling hok => exact hsilent _ rfl (h.of_same rfl rfl rfl)
  | forgotten requests hrequest hfiling hforget => exact hsilent _ rfl (h.of_same rfl rfl rfl)

theorem Books.run {records : List AttemptRecord} {steps : List Step} (h : Books records l.threads)
    (hsound : l.threads.Sound slots l.lent) (hhonest : l.Honest steps) :
    ∃ more : List AttemptRecord,
      (l.run steps).threads.state.audit = more.foldl Audit.push l.threads.state.audit ∧
        Books (records ++ more) (l.run steps).threads := by
  induction steps generalizing l records with
  | nil => exact ⟨[], rfl, (List.append_nil records).symm ▸ h⟩
  | cons step steps ih =>
    obtain ⟨first, hfirst, hbooks⟩ := h.apply hsound step
    obtain ⟨second, hsecond, hlast⟩ := ih hbooks (hsound.apply hhonest.1) hhonest.2
    refine ⟨first ++ second, ?_, ?_⟩
    · rw [List.foldl_append, ← hfirst]
      exact hsecond
    · rw [← List.append_assoc]
      exact hlast

theorem Sound.length_underway_le {lent : List JobId} (hsound : t.Sound slots lent)
    (hnone : t.tails = []) : (underway t.state.tasks).length ≤ t.state.gate.taken := by
  have hlength := hsound.shared.holders.length_eq
  rw [hnone, holding_nil, List.length_append, List.length_map] at hlength
  have htaken : t.state.gate.taken = t.state.gate.holders.length := hsound.shared.gate.taken_eq
  have hholders : t.state.gate.holders.length = t.state.tasks.length + lent.length := hlength
  have hle : (underway t.state.tasks).length ≤ t.state.tasks.length := List.length_filter_le _ _
  omega

-- Where no attempt that is over is still to be counted or reported, the books are complete.
theorem Books.accounted {records : List AttemptRecord} {lent : List JobId} (h : Books records t)
    (hsound : t.Sound slots lent) (hnone : t.tails = []) : Accounted slots records t.state := by
  obtain ⟨hattempts, houtcomes, hflight⟩ := h
  have hcount : ∀ p, Tail.count [] p = 0 := fun _ => rfl
  simp only [hnone, ongoing_nil, hcount, Nat.add_zero] at hattempts houtcomes hflight
  have hsum := length_eq_tallied records
  have hheld := hsound.length_underway_le hnone
  rw [← hflight] at hheld
  exact
    { attempts := hattempts
      sum := by
        rw [← hattempts, ← houtcomes, ← houtcomes, ← houtcomes, ← houtcomes] at hsum
        exact hsum
      outcomes := houtcomes
      inFlight := hflight
      held := hheld
      bounded := hsound.shared.gate.bounded
      slots := hsound.shared.capacity }

theorem books_initial (b : Blueprint) (around : Surroundings) :
    Books [] (ofState (b.initial around)) where
  attempts := rfl
  outcomes := fun outcome => by cases outcome <;> rfl
  inFlight := rfl

end Threads

variable {b : Blueprint} {around : Surroundings} {t : Timeline}

theorem Threads.books_of_build (hbuild : b.build around = .ok t) {steps : List Step}
    (hhonest : (ThreadLoans.ofState t.state).Honest steps) :
    ∃ records lent, ((Threads.ofState t.state).run steps).state.audit =
        records.foldl Audit.push t.state.audit ∧
      ((Threads.ofState t.state).run steps).Books records ∧
      ((Threads.ofState t.state).run steps).Sound (b.slots around) lent := by
  have hinitial : t.state = b.initial around := Blueprint.state_of_build hbuild
  have hsound : (ThreadLoans.ofState t.state).threads.Sound (b.slots around) [] :=
    hinitial ▸ Threads.sound_initial b around
  have hbooks : (ThreadLoans.ofState t.state).threads.Books [] :=
    hinitial ▸ Threads.books_initial b around
  obtain ⟨records, haudit, hlast⟩ := hbooks.run hsound hhonest
  have hafter := hsound.run hhonest
  rw [ThreadLoans.run_threads] at haudit hlast hafter
  exact ⟨records, _, haudit, hlast, hafter⟩

theorem Threads.accounted_of_build (hbuild : b.build around = .ok t) {steps : List Step}
    (hhonest : (ThreadLoans.ofState t.state).Honest steps) :
    let after := (Threads.ofState t.state).run steps
    let records := after.state.reportedSince t.state
    (after.tails = [] → Accounted (b.slots around) records after.state) ∧
      ∀ room, b.audit = some (Audit.ofCapacity room) →
        after.state.audit.records = records.drop (records.length - room) := by
  obtain ⟨records, lent, haudit, hbooks, hsound⟩ := books_of_build hbuild hhonest
  have hrecords : ((ofState t.state).run steps).state.reportedSince t.state = records := by
    rw [State.reportedSince, haudit, Audit.reported_foldl_push]
    exact List.drop_left
  simp only [hrecords, haudit]
  refine ⟨fun hnone => hbooks.accounted hsound hnone, fun room hroom => ?_⟩
  have hempty : t.state.audit = Audit.ofCapacity room := by
    rw [Blueprint.state_of_build hbuild, Blueprint.initial, hroom]
    rfl
  rw [hempty]
  exact Audit.records_foldl_push room records

-- However the steps of several threads fall: where no attempt is half over, the statistics are
-- those of the attempts that go on and of those reported, and an audit that the engine was made
-- with shows the latest of these at any time. On one thread no move leaves an attempt half over,
-- it reports one at most, and what it says of the attempt is true then.
theorem accounted_on_threads (hbuild : b.build around = .ok t) :
    (∀ steps, (ThreadLoans.ofState t.state).Honest steps →
      let after := (Threads.ofState t.state).run steps
      let records := after.state.reportedSince t.state
      (after.tails = [] → Accounted (b.slots around) records after.state) ∧
      ∀ room, b.audit = some (Audit.ofCapacity room) →
        after.state.audit.records = records.drop (records.length - room)) ∧
    ∀ moves, (Loans.ofState t.state).Lawful moves →
      let after := fun moves => (Threads.onOneThread t.state moves).state
      Accounted (b.slots around) ((after moves).reportedSince t.state) (after moves) ∧
      ∀ earlier move later, moves = earlier ++ move :: later →
        (after moves).reportedSince t.state = (after earlier).reportedSince t.state ++
          (after (earlier ++ [move])).reportedSince (after earlier) ++
          (after moves).reportedSince (after (earlier ++ [move])) ∧
        ((after (earlier ++ [move])).reportedSince (after earlier) = [] ∨
          ∃ task ∈ (after earlier).tasks, ∃ r,
            (after (earlier ++ [move])).reportedSince (after earlier) = [r] ∧ r.job = task.job ∧
            (∀ other ∈ (after (earlier ++ [move])).tasks, other.ticket ≠ task.ticket) ∧
            r.Holds task (after earlier).ledger (after (earlier ++ [move])).ledger
              (after (earlier ++ [move])).queue) := by
  refine ⟨fun steps hhonest => Threads.accounted_of_build hbuild hhonest,
    fun moves hlawful => ⟨?_, ?_⟩⟩
  · have hhonest := ThreadLoans.honest_onOneThread hlawful
    refine (Threads.accounted_of_build hbuild hhonest).1 ?_
    exact congrArg Threads.tails (Threads.onOneThread_eq t.state moves)
  · simp only [Threads.onOneThread_eq]
    rintro earlier move later hmoves
    have hsingle := (tells_of_build hbuild hlawful hmoves).single
    rw [← t.state.reportedSince_run earlier [move]] at hsingle
    have hsplit : moves = earlier ++ [move] ++ later := by simpa using hmoves
    exact ⟨hsplit ▸ t.state.reportedSince_split earlier [move] later, hsingle⟩

-- An attempt fails and is made again, with success; another job fails for good; and when someone
-- asks for that one to be run once more, nothing comes of it. The audit has room for two.
def eventfulRun : List Move :=
  [.submit ⟨1⟩ [] 5 none, .start, .poll, .beginTask 0, .endTask 0 (.error (.retriable "busy")),
    .stop, .start, .poll, .beginTask 1, .endTask 1 (.ok ⟨"out", 0, 0.0⟩),
    .submit ⟨2⟩ [] 5 none, .stop, .start, .poll, .beginTask 2,
    .endTask 2 (.error (.nonRetriable "bad")), .arrive ⟨2⟩ .run 100, .firstLook 3, .beginTask 4]

theorem accounted_on_threads_eventfulRun :
    ∃ t, ({ Blueprint.idle 1 with audit := some (Audit.ofCapacity 2) }).build default = .ok t ∧
      (∃ after, after = (Threads.ofState t.state).run (Threads.overlap ++ [.goOn 0, .goOn 0]) ∧
        after.state.tally.inFlight = 1 ∧
        Accounted 1 (after.state.reportedSince t.state) after.state) ∧
      (Loans.ofState t.state).Lawful eventfulRun ∧
      (∃ after, after = (Threads.onOneThread t.state eventfulRun).state ∧
        (after.reportedSince t.state).map AttemptRecord.outcome =
          [.retried, .completed, .failed, .skipped] ∧
        Accounted 1 (after.reportedSince t.state) after ∧
        after.audit.records = (after.reportedSince t.state).drop
          ((after.reportedSince t.state).length - 2)) ∧
      ∃ before after, before = (Threads.onOneThread t.state (eventfulRun.take 9)).state ∧
        after = (Threads.onOneThread t.state (eventfulRun.take 10)).state ∧
        after.reportedSince before = [⟨⟨1⟩, 2, .completed, Span.zero, 0⟩] ∧
        ∃ task, ∀ r ∈ after.reportedSince before,
          r.Holds task before.ledger after.ledger after.queue := by
  have hbuild : ({ Blueprint.idle 1 with audit := some (Audit.ofCapacity 2) }).build default =
      .ok _ := rfl
  obtain ⟨hsteps, hmoves⟩ := accounted_on_threads hbuild
  have hlawful : (Loans.ofState (({ Blueprint.idle 1 with
      audit := some (Audit.ofCapacity 2) }).initial default)).Lawful eventfulRun := by decide
  obtain ⟨haccounted, -⟩ := hsteps (Threads.overlap ++ [.goOn 0, .goOn 0]) (by decide)
  obtain ⟨-, haudit⟩ := hsteps _ (ThreadLoans.honest_onOneThread hlawful)
  obtain ⟨hlast, hreports⟩ := hmoves eventfulRun hlawful
  obtain ⟨-, hreported⟩ := hreports (eventfulRun.take 9) _ (eventfulRun.drop 10) rfl
  refine ⟨_, hbuild, ⟨_, rfl, by decide, haccounted (by decide)⟩, hlawful,
    ⟨_, rfl, ?_, hlast, ?_⟩, _, _, rfl, rfl, by decide, ?_⟩
  · rw [Threads.onOneThread_eq]
    decide
  · rw [Threads.onOneThread]
    exact haudit 2 rfl
  rcases hreported with hnone | ⟨task, -, r, hone, -, -, hholds⟩
  · exact absurd hnone (by decide)
  · refine ⟨task, fun record hrecord => ?_⟩
    obtain rfl : record = r := List.mem_singleton.mp (hone ▸ hrecord)
    exact hholds

-- A first attempt is counted. When it is reported that its job is to be tried again, the next
-- attempt at it goes on already.
theorem overlap_misreports :
    ∃ t, (Blueprint.idle 1).build default = .ok t ∧
      let before := (Threads.ofState t.state).run (Threads.overlap ++ [.goOn 0])
      let after := before.apply (.goOn 0)
      after.IsSettled ∧ before.state.tasks.map Task.ticket = [0, 1] ∧
      after.state.reportedSince before.state = [⟨⟨1⟩, 1, .retried, Span.zero, 0⟩] ∧
      (after.state.ledger.get? ⟨1⟩).map Job.status = some .processing ∧
      after.state.queue.order = [] ∧
      ∀ task, ∀ r ∈ after.state.reportedSince before.state,
        ¬ r.Holds task before.state.ledger after.state.ledger after.state.queue := by
  refine ⟨_, rfl, ?_, ?_, ?_, ?_, ?_, ?_⟩
  · decide
  · decide
  · decide
  · decide
  · decide
  · intro task r hr hholds
    obtain rfl : r = ⟨⟨1⟩, 1, .retried, Span.zero, 0⟩ := List.mem_singleton.mp hr
    exact absurd hholds.2.2 (by decide)

end Foreman.Engine
