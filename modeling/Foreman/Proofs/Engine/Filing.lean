import Foreman.Proofs.Engine.Names
import Foreman.Proofs.Queue.Roster
import Foreman.Proofs.Since

namespace Foreman.Engine

open Account

variable {b : Blueprint} {around : Surroundings} {t : Timeline} {s : State} {l : Loans}
  {move : Move} {moves : List Move} {slots : Nat} {id : JobId} {life : Life} {calls : Bool}
  {job next : Job} {priority : Int} {task : Task} {earlier later : List Move}

namespace State

-- The priority under which a move puts a job down. Only a job that waits for its first attempt can
-- be put down, and it need not be queued for that.
def files? (s : State) (id : JobId) : Move → Option Int
  | .enqueue other priority =>
    if other = id ∧ (s.ledger.get? id).any (fun job => job.status = .pending) then some priority
    else none
  | _ => none

-- All the priorities under which a job is put down in the course of a run.
def filings (s : State) (id : JobId) : List Move → List Int
  | [] => []
  | move :: moves => (s.files? id move).toList ++ (s.apply move).filings id moves

-- The priority under which a job is put down at the very end of a run.
def filedLast? (s : State) (id : JobId) (moves : List Move) : Option Int :=
  moves.getLast?.bind ((s.run moves.dropLast).files? id)

-- A job is in the queue under another priority than its record says.
def Misfiled (s : State) (id : JobId) : Prop :=
  ∃ job, s.ledger.get? id = some job ∧
    ∃ entry ∈ s.queue.entriesOf id, job.priority ≠ some entry.priority

-- The move puts a job down under another priority than the one that it is in the queue under.
def Misfiles (s : State) (id : JobId) (move : Move) : Prop :=
  ∃ entry ∈ s.queue.entriesOf id, ∃ priority, s.files? id move = some priority ∧
    priority ≠ entry.priority

theorem files?_eq_some : s.files? id move = some priority ↔
    move = .enqueue id priority ∧ ∃ job, s.ledger.get? id = some job ∧ job.status = .pending := by
  cases move with
  | enqueue other given =>
    simp only [files?, Option.any_eq_true, decide_eq_true_eq, Move.enqueue.injEq]
    constructor
    · intro h
      split at h
      · rename_i hfiles
        exact ⟨⟨hfiles.1, Option.some_inj.mp h⟩, hfiles.2⟩
      · cases h
    · rintro ⟨⟨rfl, rfl⟩, hpending⟩
      exact if_pos ⟨rfl, hpending⟩
  | _ => simp [files?]

theorem not_pending_of_files? (h : s.files? id move = none) (hmove : move = .enqueue id priority)
    (hjob : s.ledger.get? id = some job) : job.status ≠ .pending := by
  intro hpending
  rw [files?_eq_some.mpr ⟨hmove, job, hjob, hpending⟩] at h
  cases h

-- What is put down is written into the record at once. Where the job is in the queue already, it
-- stays there as it was.
theorem apply_of_files? (h : s.files? id move = some priority) :
    (∃ job, s.ledger.get? id = some job ∧
      (s.apply move).ledger.get? id = some { job with priority := some priority }) ∧
    ((s.apply move).queue = s.queue ∨
      (s.apply move).queue.entriesOf id = [⟨id, priority, s.now, s.queue.issued⟩]) := by
  obtain ⟨rfl, job, hjob, hpending⟩ := files?_eq_some.mp h
  obtain ⟨fault, -, hnot⟩ | ⟨found, ledger, -, hrewrites, hcases⟩ := s.enqueue_cases id priority
  · exact absurd hpending (hnot job hjob)
  · obtain rfl := hrewrites.eq_before hjob
    obtain ⟨fault, heq, -⟩ | ⟨position, heq, -⟩ | ⟨position, heq, hout, -⟩ := hcases
    · rw [apply, heq]
      exact ⟨⟨found, hjob, hrewrites.after⟩, .inl rfl⟩
    · rw [apply, heq]
      exact ⟨⟨found, hjob, hrewrites.after⟩, .inl rfl⟩
    · rw [apply, heq]
      refine ⟨⟨found, hjob, hrewrites.after⟩, .inr ?_⟩
      rw [s.queue.entriesOf_joined _ _ hout, if_pos rfl]

end State

namespace Life

def Misfiled (life : Life) : Prop :=
  ∃ job, life.record = some job ∧ ∃ entry ∈ life.entries, job.priority ≠ some entry.priority

theorem Misfiled.entries_ne (h : life.Misfiled) : life.entries ≠ [] := by
  obtain ⟨-, -, entry, hentry, -⟩ := h
  exact List.ne_nil_of_mem hentry

theorem misfiled_congr {life' : Life} (hentries : life'.entries = life.entries)
    (hjob : life.record = some job) (hnext : life'.record = some next)
    (hpriority : next.priority = job.priority) : life'.Misfiled ↔ life.Misfiled := by
  simp only [Misfiled, hentries, hjob, hnext, Option.some_inj, exists_eq_left', hpriority]

-- A job that is to be tried again waits under the priority in its record.
def Returns (life : Life) : Prop :=
  ∀ job, life.record = some job → job.status = .retrying →
    ∀ entry ∈ life.entries, job.priority = some entry.priority

theorem returns_of_status (hjob : life.record = some job) (hstatus : job.status ≠ .retrying) :
    life.Returns := by
  intro found hfound hretrying
  obtain rfl := Option.some_inj.mp (hjob.symm.trans hfound)
  exact absurd hretrying hstatus

theorem returns_of_entries (hentries : life.entries = []) : life.Returns := by
  intro job _ _ entry hentry
  rw [hentries] at hentry
  cases hentry

end Life

namespace Loans.Regular

variable (h : l.Regular slots)

include h

theorem ready_of_entries (hentries : (l.state.life id).entries ≠ []) : l.state.ledger.Ready id := by
  refine h.faithful.queued id ?_
  by_contra hout
  exact hentries (Queue.entriesOf_eq_nil_iff.mpr hout)

-- The attempt at a job that came from the queue ends, and the job is queued again under the
-- priority that it had all the while.
theorem priority_of_retried (htasks : (l.state.life id).tasks = [task]) {before : Job}
    (hstage : task.stage = .running before) (hjob : (l.state.life id).record = some job)
    (hstatus : job.status = .processing) (hentries : (l.state.life id).entries = [])
    (hrequeues : task.requeues = true) :
    ∀ entry ∈ (l.state.queue.joined job.id (job.priority.getD Job.defaultPriority)
      l.state.now).entriesOf id, job.priority = some entry.priority := by
  obtain ⟨htask, hid⟩ := mem_tasksOf.mp (htasks ▸ List.mem_singleton_self task)
  have hsame := h.balanced.eq_before htask hstage (hid.symm ▸ hjob) hstatus
  have hsome : job.priority.isSome = true := by
    rw [hsame]
    exact h.faithful.priority task htask before hstage hrequeues
  obtain ⟨priority, hpriority⟩ := Option.isSome_iff_exists.mp hsome
  intro entry hentry
  rw [(Ledger.get?_mem hjob).2,
    l.state.queue.entriesOf_joined _ _ (Queue.entriesOf_eq_nil_iff.mp hentries),
    if_pos rfl] at hentry
  rw [List.mem_singleton.mp hentry, hpriority]
  rfl

-- A move that puts nothing down leaves a misfiled job so, unless the job leaves the queue.
theorem misfiled_turn_iff (hturn : Turn l.state move id calls life)
    (hunfiled : l.state.files? id move = none) :
    life.Misfiled ↔ (l.state.life id).Misfiled ∧ life.entries ≠ [] := by
  have hkept : (life.Misfiled ↔ (l.state.life id).Misfiled) →
      (life.Misfiled ↔ (l.state.life id).Misfiled ∧ life.entries ≠ []) := fun hiff =>
    ⟨fun hafter => ⟨hiff.mp hafter, hafter.entries_ne⟩, fun hboth => hiff.mpr hboth.1⟩
  have hnone : life.entries = [] →
      (life.Misfiled ↔ (l.state.life id).Misfiled ∧ life.entries ≠ []) := fun hempty =>
    ⟨fun hafter => absurd hempty hafter.entries_ne, fun hboth => absurd hempty hboth.2⟩
  cases hturn with
  | still => exact hkept Iff.rfl
  | created _ _ _ hrecord =>
    refine hnone ?_
    by_contra hentries
    obtain ⟨job, hjob, -⟩ := h.ready_of_entries hentries
    cases hrecord.symm.trans hjob
  | submitted _ hrecord _ _ _ =>
    constructor
    · rintro ⟨job, hjob, entry, hentry, hne⟩
      obtain rfl := Option.some_inj.mp hjob
      rw [List.mem_singleton.mp hentry] at hne
      exact absurd rfl hne
    · rintro ⟨⟨job, hjob, -⟩, -⟩
      cases hrecord.symm.trans hjob
  | prioritized _ hmove hjob hpending =>
    exact absurd hpending (State.not_pending_of_files? hunfiled hmove hjob)
  | queued _ hmove hjob hpending _ =>
    exact absurd hpending (State.not_pending_of_files? hunfiled hmove hjob)
  | taken _ _ => exact hnone rfl
  | admitted _ _ _ => exact hnone rfl
  | begun _ _ hjob _ => exact hkept (Life.misfiled_congr rfl hjob rfl rfl)
  | skipped _ _ _ => exact hkept Iff.rfl
  | progressed _ hjob _ => exact hkept (Life.misfiled_congr rfl hjob rfl rfl)
  | ended htasks hstage hjob hstatus hentries hconcludes =>
    cases hconcludes with
    | retried hrequeues _ _ =>
      constructor
      · rintro ⟨job, hrecord, entry, hentry, hne⟩
        obtain rfl := Option.some_inj.mp hrecord
        exact absurd (h.priority_of_retried htasks hstage hjob hstatus hentries hrequeues entry
          hentry) hne
      · exact fun hboth => absurd hentries hboth.1.entries_ne
    | _ => exact hnone hentries
  | claimed _ _ => exact hkept Iff.rfl
  | released _ => exact hkept Iff.rfl
  | withdrawn _ _ _ => exact hnone rfl
  | discarded _ _ _ _ => exact hnone rfl
  | evicted hjob hover =>
    refine hnone ?_
    by_contra hentries
    obtain ⟨found, hfound, hcan, -⟩ := h.ready_of_entries hentries
    obtain rfl := Option.some_inj.mp (hjob.symm.trans hfound)
    rw [Status.canBecome_of_isTerminal hover] at hcan
    cases hcan

-- What is put down in a move is all that counts for the record. What counts for the queue is
-- whether the job is there already.
theorem misfiled_make_iff (hfresh : l.state.NamesAfresh move) :
    (l.make move).state.Misfiled id ↔ (l.state.Misfiled id ∨ l.state.Misfiles id move) ∧
      ∃ entry ∈ (l.make move).state.queue.entriesOf id,
        l.state.files? id move ≠ some entry.priority := by
  cases hfiles : l.state.files? id move with
  | none =>
    have hnot : ¬ l.state.Misfiles id move := by
      rintro ⟨-, -, priority, hsome, -⟩
      cases hfiles.symm.trans hsome
    have hentries : ((l.make move).state.life id).entries ≠ [] ↔
        ∃ entry ∈ (l.make move).state.queue.entriesOf id, none ≠ some entry.priority := by
      simp only [ne_eq, reduceCtorEq, not_false_eq_true, and_true]
      exact ⟨List.exists_mem_of_ne_nil _, fun ⟨_, hentry⟩ => List.ne_nil_of_mem hentry⟩
    rw [or_iff_left hnot, ← hentries]
    exact h.misfiled_turn_iff (h.turn hfresh id) hfiles
  | some priority =>
    obtain ⟨⟨job, hjob, hnext⟩, hqueue⟩ := State.apply_of_files? hfiles
    rw [Loans.make_state]
    constructor
    · rintro ⟨found, hfound, entry, hentry, hne⟩
      obtain rfl := Option.some_inj.mp (hnext.symm.trans hfound)
      refine ⟨.inr ?_, entry, hentry, hne⟩
      rcases hqueue with hsame | hnew
      · exact ⟨entry, hsame ▸ hentry, priority, hfiles, fun he => hne (congrArg some he)⟩
      · rw [hnew] at hentry
        rw [List.mem_singleton.mp hentry] at hne
        exact absurd rfl hne
    · rintro ⟨-, entry, hentry, hne⟩
      exact ⟨_, hnext, entry, hentry, hne⟩

theorem returns_turn (hturn : Turn l.state move id calls life)
    (hreturns : (l.state.life id).Returns) : life.Returns := by
  cases hturn with
  | still => exact hreturns
  | created _ _ _ _ => exact Life.returns_of_status rfl (by simp [Job.fresh])
  | submitted _ _ _ hnew _ =>
    obtain ⟨params, maxRetries, rfl⟩ := hnew
    exact Life.returns_of_status rfl (by simp [Job.fresh])
  | prioritized _ _ _ hpending => exact Life.returns_of_status rfl (by simp [hpending])
  | queued _ _ _ hpending _ => exact Life.returns_of_status rfl (by simp [hpending])
  | taken _ _ => exact Life.returns_of_entries rfl
  | admitted _ _ _ => exact Life.returns_of_entries rfl
  | begun _ _ _ _ => exact Life.returns_of_status rfl (by simp [Job.begun])
  | skipped _ _ _ => exact hreturns
  | progressed _ _ hstatus => exact Life.returns_of_status rfl (by simp [hstatus])
  | ended htasks hstage hjob hstatus hentries hconcludes =>
    cases hconcludes with
    | retried hrequeues _ _ =>
      intro found hfound _
      obtain rfl := Option.some_inj.mp hfound
      exact h.priority_of_retried htasks hstage hjob hstatus hentries hrequeues
    | _ => exact Life.returns_of_entries hentries
  | claimed _ _ => exact hreturns
  | released _ => exact hreturns
  | withdrawn _ _ _ => exact Life.returns_of_entries rfl
  | discarded _ _ _ _ => exact Life.returns_of_entries rfl
  | evicted _ _ => exact fun _ hjob => by cases hjob

end Loans.Regular

theorem Turn.record_eq_none (hturn : Turn s move id calls life) (hname : move.names? ≠ some id)
    (hnone : (s.life id).record = none) : life.record = none := by
  cases hturn with
  | created _ _ hmove _ => exact absurd hmove hname
  | submitted hmove _ _ _ _ => exact absurd hmove hname
  | prioritized _ _ hjob _ => cases hnone.symm.trans hjob
  | queued _ _ hjob _ _ => cases hnone.symm.trans hjob
  | begun _ _ hjob _ => cases hnone.symm.trans hjob
  | progressed _ hjob _ => cases hnone.symm.trans hjob
  | ended _ _ hjob _ _ _ => cases hnone.symm.trans hjob
  | discarded _ _ _ _ => rfl
  | evicted _ _ => rfl
  | _ => exact hnone

theorem State.Concludes.priority_eq {requeues : Bool} {result : Except Failure Artifact}
    {queue : Queue} {outcome : Outcome}
    (h : s.Concludes requeues job result next queue outcome) : next.priority = job.priority := by
  cases h <;> rfl

-- A record keeps its priority until its job is put down again.
theorem Turn.priority_eq (hturn : Turn s move id calls life) (hname : move.names? ≠ some id)
    (hunfiled : s.files? id move = none) (hjob : (s.life id).record = some job)
    (hnext : life.record = some next) : next.priority = job.priority := by
  have hkept : ∀ {before after : Job}, (s.life id).record = some before → some after = some next →
      after.priority = before.priority → next.priority = job.priority := by
    intro before after hbefore hafter hsame
    rw [← Option.some_inj.mp hafter, hsame, Option.some_inj.mp (hjob.symm.trans hbefore)]
  cases hturn with
  | created _ _ hmove _ => exact absurd hmove hname
  | submitted hmove _ _ _ _ => exact absurd hmove hname
  | prioritized _ hmove hrecord hpending =>
    exact absurd hpending (State.not_pending_of_files? hunfiled hmove hrecord)
  | queued _ hmove hrecord hpending _ =>
    exact absurd hpending (State.not_pending_of_files? hunfiled hmove hrecord)
  | begun _ _ hrecord _ => exact hkept hrecord hnext rfl
  | progressed _ hrecord _ => exact hkept hrecord hnext rfl
  | ended _ _ hrecord _ _ hconcludes => exact hkept hrecord hnext hconcludes.priority_eq
  | discarded _ _ _ _ => cases hnext
  | evicted _ _ => cases hnext
  | _ => exact hkept hjob (hjob.symm.trans hnext) rfl

namespace Loans

theorem Regular.priority_make (h : l.Regular slots) (hfresh : l.state.NamesAfresh move)
    (hname : move.names? ≠ some id) (hjob : l.state.ledger.get? id = some job)
    (hnext : (l.make move).state.ledger.get? id = some next) :
    next.priority = (l.state.files? id move).or job.priority := by
  cases hfiles : l.state.files? id move with
  | some priority =>
    obtain ⟨⟨found, -, hafter⟩, -⟩ := State.apply_of_files? hfiles
    obtain rfl := Option.some_inj.mp (hafter.symm.trans hnext)
    rfl
  | none => exact (h.turn hfresh id).priority_eq hname hfiles hjob hnext

namespace Lawful

theorem record_eq_none (hlawful : l.Lawful moves) (h : l.Regular slots)
    (hnames : ∀ move ∈ moves, move.names? ≠ some id) (hnone : l.state.ledger.get? id = none) :
    (l.run moves).state.ledger.get? id = none := by
  induction moves generalizing l with
  | nil => exact hnone
  | cons move moves ih =>
    obtain ⟨⟨hreturns, hfresh⟩, hlawful⟩ := hlawful
    refine ih hlawful (h.make hreturns hfresh)
      (fun other hother => hnames other (List.mem_cons_of_mem _ hother)) ?_
    exact (h.turn hfresh id).record_eq_none (hnames move List.mem_cons_self) hnone

-- Of all the priorities under which a job is put down the last one is in its record.
theorem priority_run (hlawful : l.Lawful moves) (h : l.Regular slots)
    (hnames : ∀ move ∈ moves, move.names? ≠ some id) (hjob : l.state.ledger.get? id = some job)
    (hnext : (l.run moves).state.ledger.get? id = some next) :
    next.priority = (l.state.filings id moves).getLast?.or job.priority := by
  induction moves generalizing l job with
  | nil =>
    obtain rfl := Option.some_inj.mp (hjob.symm.trans hnext)
    rfl
  | cons move moves ih =>
    obtain ⟨⟨hreturns, hfresh⟩, hlawful⟩ := hlawful
    have hlater : ∀ other ∈ moves, other.names? ≠ some id := fun other hother =>
      hnames other (List.mem_cons_of_mem _ hother)
    have hregular := h.make hreturns hfresh
    cases hmiddle : (l.make move).state.ledger.get? id with
    | none => cases (record_eq_none hlawful hregular hlater hmiddle).symm.trans hnext
    | some middle =>
      have hlast : (l.state.files? id move).toList.getLast? = l.state.files? id move := by
        cases l.state.files? id move <;> rfl
      rw [ih hlawful hregular hlater hmiddle hnext,
        h.priority_make hfresh (hnames move List.mem_cons_self) hjob hmiddle, State.filings,
        List.getLast?_append, hlast, Option.or_assoc]
      rfl

theorem returns_run (hlawful : l.Lawful moves) (h : l.Regular slots)
    (hreturns : (l.state.life id).Returns) : ((l.run moves).state.life id).Returns := by
  induction moves generalizing l with
  | nil => exact hreturns
  | cons move moves ih =>
    obtain ⟨⟨hown, hfresh⟩, hlawful⟩ := hlawful
    exact ih hlawful (h.make hown hfresh) (h.returns_turn (h.turn hfresh id) hreturns)

theorem misfiled_run_iff (hlawful : l.Lawful moves) (h : l.Regular slots)
    (hnone : ¬ l.state.Misfiled id) :
    (l.run moves).state.Misfiled id ↔
      Since (fun earlier move => (l.run earlier).state.Misfiles id move)
        (fun run => ∃ entry ∈ (l.run run).state.queue.entriesOf id,
          l.state.filedLast? id run ≠ some entry.priority) moves := by
  refine iff_since (fun run => (l.run run).state.Misfiled id) hnone ?_
  rintro before last ⟨rest, rfl⟩
  obtain ⟨hbefore, -⟩ := Loans.follows_append.mp hlawful
  obtain ⟨hbefore, ⟨-, hfresh⟩, -⟩ := Loans.follows_append.mp hbefore
  have hlast : l.run (before ++ [last]) = (l.run before).make last := by
    rw [Loans.run_append]
    rfl
  have hfiled : l.state.filedLast? id (before ++ [last]) = (l.run before).state.files? id last := by
    rw [State.filedLast?, List.getLast?_concat, List.dropLast_concat, Loans.run_state]
    rfl
  rw [hlast, hfiled]
  exact (Loans.Lawful.regular hbefore h).misfiled_make_iff hfresh

-- From a time on when a job was queued as its record said, the last priority under which it is put
-- down is the one that it is tried again under.
theorem retry_priority (hlawful : l.Lawful (earlier ++ later)) (h : l.Regular slots)
    (hreturns : (l.state.life id).Returns) (hnames : ∀ move ∈ later, move.names? ≠ some id)
    (hfiled : ¬ (l.run earlier).state.Misfiled id) {entry retry : Entry}
    (hentry : entry ∈ (l.run earlier).state.queue.entriesOf id)
    (hretry : retry ∈ (l.run (earlier ++ later)).state.queue.entriesOf id)
    (hjob : (l.run (earlier ++ later)).state.ledger.get? id = some job)
    (hstatus : job.status = .retrying) :
    retry.priority = ((l.run earlier).state.filings id later).getLastD entry.priority := by
  obtain ⟨hearlier, hlater⟩ := Loans.follows_append.mp hlawful
  have hmidway := Loans.Lawful.regular hearlier h
  have hready : (l.run earlier).state.ledger.Ready id :=
    hmidway.ready_of_entries (List.ne_nil_of_mem hentry)
  obtain ⟨start, hstart, -, -⟩ := hready
  have hpriority : start.priority = some entry.priority := by
    by_contra hne
    exact hfiled ⟨start, hstart, entry, hentry, hne⟩
  have hback : job.priority = some retry.priority :=
    returns_run hlawful h hreturns job hjob hstatus retry hretry
  rw [Loans.run_append] at hjob
  have hrecorded := priority_run hlater hmidway hnames hstart hjob
  rw [hback, hpriority, Option.or_some] at hrecorded
  rw [List.getLastD_eq_getLast?]
  exact Option.some_inj.mp hrecorded

end Lawful

end Loans

-- A job that is in the queue has its name by then, and no other gets it later.
theorem Blueprint.names?_ne_of_queued (hbuild : b.build around = .ok t)
    (hhonest : (Loans.ofState t.state).Honest (earlier ++ later))
    (hapart : NamesApart (earlier ++ later))
    (hqueued : (((Loans.ofState t.state).run earlier).state.life id).entries ≠ []) :
    ∀ move ∈ later, move.names? ≠ some id := by
  intro move hmove
  refine names?_ne_of_not_mem (hapart.not_mem_later ?_) hmove
  by_contra hout
  exact hqueued (Blueprint.unknown_of_build hbuild (Loans.follows_append.mp hhonest).1
    hapart.of_append hout).entries

-- The record of a queued job has another priority than its entry just if the job was put down once
-- more while it was in the queue, and neither left the queue nor was put down as it had been before
-- since then. What was put down last is the priority of the job when it is tried again.
theorem misfiled_iff_misfiles_since (hbuild : b.build around = .ok t)
    (hhonest : (Loans.ofState t.state).Honest moves) (hapart : NamesApart moves) (id : JobId) :
    ((t.state.run moves).Misfiled id ↔
      Since (fun earlier move => (t.state.run earlier).Misfiles id move)
        (fun run => ∃ entry ∈ (t.state.run run).queue.entriesOf id,
          t.state.filedLast? id run ≠ some entry.priority) moves) ∧
    ∀ earlier later, moves = earlier ++ later → ¬ (t.state.run earlier).Misfiled id →
      ∀ entry ∈ (t.state.run earlier).queue.entriesOf id,
      ∀ retry ∈ (t.state.run moves).queue.entriesOf id,
      ∀ job, (t.state.run moves).ledger.get? id = some job → job.status = .retrying →
        retry.priority = ((t.state.run earlier).filings id later).getLastD entry.priority := by
  have hregular := Blueprint.regular_of_build hbuild
  have hlawful := Blueprint.lawful_of_build hbuild hhonest hapart
  have hunknown := Blueprint.unknown_of_start hbuild id
  have hstate : ∀ moves, ((Loans.ofState t.state).run moves).state = t.state.run moves :=
    Loans.run_state (Loans.ofState t.state)
  refine ⟨?_, ?_⟩
  · have hnone : ¬ (Loans.ofState t.state).state.Misfiled id := by
      rintro ⟨job, hjob, -⟩
      cases hunknown.record.symm.trans hjob
    have hiff := hlawful.misfiled_run_iff hregular hnone
    simp only [hstate] at hiff
    exact hiff
  · rintro earlier later rfl hfiled entry hentry retry hretry job hjob hstatus
    simp only [← hstate] at hfiled hentry hretry hjob ⊢
    have hnames := Blueprint.names?_ne_of_queued hbuild hhonest hapart (List.ne_nil_of_mem hentry)
    exact hlawful.retry_priority hregular (Life.returns_of_entries hunknown.entries) hnames hfiled
      hentry hretry hjob hstatus

-- Two jobs are in the queue, and the first of them is put down once more, under a priority that
-- would make it the last.
def refiledRun : List Move :=
  [.submit ⟨1⟩ [] 5 none, .submit ⟨2⟩ [] 7 none, .enqueue ⟨1⟩ 9]

-- It is dispatched first all the same, and fails.
def refiledRetry : List Move :=
  refiledRun ++ [.start, .poll, .beginTask 0, .endTask 0 (.error (.retriable "busy"))]

theorem misfiled_iff_misfiles_since_refiledRun :
    ∃ t, (Blueprint.idle 1).build default = .ok t ∧
      (Loans.ofState t.state).Honest refiledRun ∧ NamesApart refiledRun ∧
      ((t.state.run refiledRun).Misfiled ⟨1⟩ ↔
        Since (fun earlier move => (t.state.run earlier).Misfiles ⟨1⟩ move)
          (fun run => ∃ entry ∈ (t.state.run run).queue.entriesOf ⟨1⟩,
            t.state.filedLast? ⟨1⟩ run ≠ some entry.priority) refiledRun) := by
  have hbuild : (Blueprint.idle 1).build default = .ok _ := rfl
  refine ⟨_, hbuild, ?_, ?_, (misfiled_iff_misfiles_since hbuild ?_ ?_ ⟨1⟩).1⟩
  · decide
  · decide
  · decide
  · decide

-- The record says 9 then, and the queue 5. When the job is tried again, it comes behind the other
-- job, which it was dispatched before.
theorem refiledRun_misfiled :
    ∃ t, (Blueprint.idle 1).build default = .ok t ∧
      (Loans.ofState t.state).Honest refiledRetry ∧ NamesApart refiledRetry ∧
      ({ t with state := t.state.run refiledRun } : Timeline).step?.isNone = true ∧
      (t.state.run refiledRun).Misfiled ⟨1⟩ ∧
      (t.state.run refiledRun).queue.entries.map Queue.line = [(⟨1⟩, 5), (⟨2⟩, 7)] ∧
      (t.state.run refiledRetry).queue.entries.map Queue.line = [(⟨2⟩, 7), (⟨1⟩, 9)] := by
  refine ⟨_, rfl, ?_, ?_, ?_, ⟨_, rfl, ⟨⟨1⟩, 5, 0, 0⟩, ?_, ?_⟩, ?_, ?_⟩
  · decide
  · decide
  · decide
  · decide
  · decide
  · decide
  · decide

end Foreman.Engine
