import Foreman.Proofs.Engine.Attendance
import Foreman.Proofs.Engine.Dispatchable
import Foreman.Proofs.Engine.Names
import Foreman.Proofs.Engine.Threads

namespace Foreman.Engine

variable {b : Blueprint} {around : Surroundings} {t : Timeline} {s : State} {l : Loans}
  {move last : Move} {moves before after : List Move} {caller : Caller} {phase next : Phase}
  {deadline? until? : Option Nat} {id : JobId} {life : Life} {calls : Bool}
  {slots ticket deadline timeout : Nat} {answer : Answer}

-- A job is over, or it is gone.
def Life.IsOver (life : Life) : Prop := ∀ job, life.record = some job → job.status.isTerminal = true

-- An attempt that was asked for directly goes on, or the job is over.
def Life.SeenThrough (ticket : Nat) (id : JobId) (life : Life) : Prop :=
  (∃ stage, life.tasks = [⟨ticket, id, false, stage⟩]) ∨ life.IsOver

theorem Life.IsOver.absurd {p : Prop} {job : Job} (h : life.IsOver) (hjob : life.record = some job)
    (hlive : job.status.isTerminal = false) : p := by
  cases hlive.symm.trans (h job hjob)

-- Nothing becomes of a job that is over, unless a new one takes its name.
theorem Turn.isOver (hturn : Turn s move id calls life) (hname : move.names? ≠ some id)
    (h : (s.life id).IsOver) : life.IsOver := by
  cases hturn with
  | created _ _ hmove _ => exact absurd hmove hname
  | submitted hmove _ _ _ _ => exact absurd hmove hname
  | prioritized _ _ hjob hpending => exact h.absurd hjob (by rw [hpending]; rfl)
  | queued _ _ hjob hpending _ => exact h.absurd hjob (by rw [hpending]; rfl)
  | begun _ _ hjob hready =>
    rw [Status.canBecome_of_isTerminal (h _ hjob)] at hready
    cases hready
  | progressed _ hjob hstatus => exact h.absurd hjob (by rw [hstatus]; rfl)
  | ended _ _ hjob hstatus _ _ => exact h.absurd hjob (by rw [hstatus]; rfl)
  | discarded _ _ _ _ => exact fun _ hjob => by cases hjob
  | evicted _ _ => exact fun _ hjob => by cases hjob
  | _ => exact h

-- An attempt that does not queue its job again has brought it to its end when it ends itself.
theorem State.Concludes.isTerminal_of_direct {job next : Job} {result : Except Failure Artifact}
    {queue : Queue} {outcome : Outcome}
    (h : s.Concludes false job result next queue outcome) : next.status.isTerminal = true := by
  cases h with
  | retried hrequeues _ _ => cases hrequeues
  | _ => rfl

theorem Turn.seenThrough (hturn : Turn s move id calls life) (hname : move.names? ≠ some id)
    (h : (s.life id).SeenThrough ticket id) : life.SeenThrough ticket id := by
  rcases h with ⟨stage, htasks⟩ | hover
  · cases hturn with
    | admitted _ _ hnone => cases htasks.symm.trans hnone
    | begun hone _ _ _ =>
      obtain rfl := List.singleton_inj.mp (hone.symm.trans htasks)
      exact .inl ⟨_, rfl⟩
    | skipped _ _ hover => exact .inr hover
    | ended hone _ _ _ _ hconcludes =>
      obtain rfl := List.singleton_inj.mp (hone.symm.trans htasks)
      refine .inr fun job hjob => ?_
      obtain rfl := Option.some_inj.mp hjob
      exact hconcludes.isTerminal_of_direct
    | _ => exact .inl ⟨stage, htasks⟩
  · exact .inr (hturn.isOver hname hover)

namespace Loans

-- Something happened at some step of a run.
def Once (happens : Loans → Move → Prop) (l : Loans) (moves : List Move) : Prop :=
  ∃ earlier move later, moves = earlier ++ move :: later ∧ happens (l.run earlier) move

-- What one caller did, and what happened to it, was nothing to the queue, to jobs, to the books or
-- to the slots.
def Quiet (tag : Nat) (l : Loans) (moves : List Move) : Prop :=
  Follows (fun l move => l.state.Own tag move → l.state.Idle (l.make move).state) l moves

-- A caller looks for the first time.
structure Looks (caller : Caller) (l : Loans) (move : Move) : Prop where
  first : move = .firstLook caller.tag
  there : l.state.caller? caller.tag = some { caller with phase := .fresh }

-- The job is on record at that time, and the caller will wait for the slot until its time is up.
structure Asks (caller : Caller) (deadline : Nat) (l : Loans) (move : Move) : Prop
    extends Looks caller l move where
  known : l.state.ledger.contains caller.job = true
  time : deadline = l.state.now + caller.timeout

-- A caller is turned away: its job has a slot when it looks, or its time is up.
structure TurnsAway (caller : Caller) (deadline : Nat) (l : Loans) (move : Move) : Prop where
  own : l.state.Own caller.tag move
  reason : caller.job ∈ l.state.gate.holders ∨ deadline ≤ (l.make move).state.now

-- A caller gets the slot, and the attempt has a ticket.
structure Grants (caller : Caller) (ticket : Nat) (l : Loans) (move : Move) : Prop where
  own : l.state.Own caller.tag move
  seizes : l.state.Seizes (l.make move).state caller.job
  issued : l.state.issued = ticket

-- A caller gets to know what is on record of its job. The attempt is over by then, and with it the
-- job, which is not queued; if it has a slot again, that is someone else's.
structure Yields (caller : Caller) (ticket : Nat) (job? : Option Job) (l : Loans) (move : Move) :
    Prop where
  own : move = .collect caller.tag
  there : l.state.caller? caller.tag = some { caller with phase := .running ticket }
  record : job? = l.state.ledger.get? caller.job
  gone : ∀ task ∈ l.state.tasks, task.ticket ≠ ticket
  final : ∀ job, job? = some job → job.status = .completed ∨ job.status = .failed
  unqueued : caller.job ∉ l.state.queue.order
  others : caller.job ∈ l.state.gate.holders →
    (∃ task ∈ l.state.tasks, task.job = caller.job ∧ task.ticket ≠ ticket) ∨ caller.job ∈ l.lent

-- The answers there are for one who is to run a job, and how they come about. A job that is run
-- can have left the ledger by the time of the answer.
inductive Ends (l : Loans) (moves : List Move) (caller : Caller) : Answer → Prop
  | unknown (hunknown : l.Once (fun l move => Looks caller l move ∧
        l.state.ledger.contains caller.job = false) moves)
      (hquiet : l.Quiet caller.tag moves) :
      Ends l moves caller (.refused (.notFound caller.job))
  | turnedAway {deadline : Nat} (hasks : l.Once (Asks caller deadline) moves)
      (hturnedAway : l.Once (TurnsAway caller deadline) moves)
      (hquiet : l.Quiet caller.tag moves) :
      Ends l moves caller (.run none)
  | ran {deadline ticket : Nat} {job? : Option Job} (hasks : l.Once (Asks caller deadline) moves)
      (hgrants : l.Once (Grants caller ticket) moves)
      (hyields : l.Once (Yields caller ticket job?) moves) :
      Ends l moves caller (.run job?)

-- How far a caller has come who is to run a job, and until when it waits if it does.
inductive Course (l : Loans) (moves : List Move) (caller : Caller) : Phase → Option Nat → Prop
  | fresh (hmoves : .firstLook caller.tag ∉ moves) (hquiet : l.Quiet caller.tag moves) :
      Course l moves caller .fresh none
  | waiting {deadline : Nat} (hasks : l.Once (Asks caller deadline) moves)
      (hquiet : l.Quiet caller.tag moves) :
      Course l moves caller .waiting (some deadline)
  | running {deadline ticket : Nat} (hasks : l.Once (Asks caller deadline) moves)
      (hgrants : l.Once (Grants caller ticket) moves)
      (hattempt : ((l.run moves).state.life caller.job).SeenThrough ticket caller.job) :
      Course l moves caller (.running ticket) none
  | answered {answer : Answer} (hends : l.Ends moves caller answer) :
      Course l moves caller (.answered answer) none
  | abandoned : Course l moves caller .abandoned none

variable {happens : Loans → Move → Prop}

theorem Once.later (h : l.Once happens moves) (last : Move) : l.Once happens (moves ++ [last]) := by
  obtain ⟨earlier, move, later, rfl, hhappens⟩ := h
  exact ⟨earlier, move, later ++ [last], by simp, hhappens⟩

theorem Once.cons (h : (l.make move).Once happens moves) : l.Once happens (move :: moves) := by
  obtain ⟨earlier, found, later, rfl, hhappens⟩ := h
  exact ⟨move :: earlier, found, later, rfl, hhappens⟩

theorem once_last (h : happens (l.run moves) last) : l.Once happens (moves ++ [last]) :=
  ⟨moves, last, [], rfl, h⟩

theorem Quiet.later {tag : Nat} (h : l.Quiet tag moves)
    (hlast : (l.run moves).state.Own tag last →
      (l.run moves).state.Idle ((l.run moves).make last).state) :
    l.Quiet tag (moves ++ [last]) :=
  follows_append.mpr ⟨h, hlast, trivial⟩

theorem run_split (l : Loans) (first : List Move) (move : Move) (second : List Move) :
    l.run (first ++ move :: second) = ((l.run first).make move).run second :=
  l.run_append first (move :: second)

theorem run_concat (l : Loans) (moves : List Move) (last : Move) :
    l.run (moves ++ [last]) = (l.run moves).make last := l.run_append moves [last]

namespace Ends

theorem later (h : l.Ends moves caller answer)
    (hlast : (l.run moves).state.Own caller.tag last →
      (l.run moves).state.Idle ((l.run moves).make last).state) :
    l.Ends (moves ++ [last]) caller answer := by
  cases h with
  | unknown hunknown hquiet => exact .unknown (hunknown.later last) (hquiet.later hlast)
  | turnedAway hasks hturnedAway hquiet =>
    exact .turnedAway (hasks.later last) (hturnedAway.later last) (hquiet.later hlast)
  | ran hasks hgrants hyields =>
    exact .ran (hasks.later last) (hgrants.later last) (hyields.later last)

end Ends

-- Whoever looks at the gate has asked for the slot, now or before, and nothing has come of it yet.
theorem Course.asks_of_looks (h : l.Course moves caller phase deadline?)
    (hthere : (l.run moves).state.caller? caller.tag = some { caller with phase := phase })
    (hlooks : (l.run moves).state.LooksUntil last { caller with phase := phase } deadline? deadline) :
    l.Once (Asks caller deadline) (moves ++ [last]) ∧ l.Quiet caller.tag moves := by
  cases hlooks with
  | first hmove hphase hknown _ =>
    obtain rfl : phase = .fresh := hphase
    cases h with
    | fresh _ hquiet => exact ⟨once_last ⟨⟨hmove, hthere⟩, hknown, rfl⟩, hquiet⟩
  | again _ _ hasked =>
    subst hasked
    cases h with
    | waiting hasks hquiet => exact ⟨hasks.later last, hquiet⟩

-- A move that is not for a caller, or in vain, leaves it where it was.
theorem Course.stay (h : l.Course moves caller phase deadline?)
    (hlast : (l.run moves).state.Own caller.tag last →
      (l.run moves).state.Idle ((l.run moves).make last).state)
    (hlook : phase = .fresh → last ≠ .firstLook caller.tag)
    (hturn : Turn (l.run moves).state last caller.job calls
      (((l.run moves).make last).state.life caller.job))
    (hname : ∀ deadline, l.Once (Asks caller deadline) moves → last.names? ≠ some caller.job) :
    l.Course (moves ++ [last]) caller phase deadline? := by
  cases h with
  | fresh hmoves hquiet =>
    refine .fresh (fun hmem => ?_) (hquiet.later hlast)
    rcases List.mem_append.mp hmem with hold | hnew
    · exact hmoves hold
    · exact hlook rfl (List.mem_singleton.mp hnew).symm
  | waiting hasks hquiet => exact .waiting (hasks.later last) (hquiet.later hlast)
  | running hasks hgrants hseen =>
    refine .running (hasks.later last) (hgrants.later last) ?_
    rw [run_concat]
    exact hturn.seenThrough (hname _ hasks) hseen
  | answered hends => exact .answered (hends.later hlast)
  | abandoned => exact .abandoned

namespace Regular

variable (h : l.Regular slots)

include h

theorem not_mem_order_of_isOver (hover : (l.state.life id).IsOver) : id ∉ l.state.queue.order := by
  intro hqueued
  obtain ⟨job, hrecord, hwaits⟩ := h.waits_of_queued hqueued
  refine hover.absurd hrecord ?_
  rcases hwaits with hstatus | hstatus
  · rw [hstatus]
    rfl
  · rw [hstatus]
    rfl

theorem gone_of_isOver (hover : l.state.isOver ticket = true) :
    ∀ task ∈ l.state.tasks, task.ticket ≠ ticket := by
  intro task htask hticket
  have hfind : l.state.task? task.ticket = some task := Keyed.find?_key h.balanced.tickets htask
  rw [State.isOver, ← hticket, hfind] at hover
  cases hover

-- What there is to say when an attempt is over.
theorem yields (hthere : l.state.caller? caller.tag = some { caller with phase := .running ticket })
    (hseen : (l.state.life caller.job).SeenThrough ticket caller.job)
    (hover : l.state.isOver ticket = true) :
    Yields caller ticket (l.state.ledger.get? caller.job) l (.collect caller.tag) := by
  have hgone := h.gone_of_isOver hover
  have hjob : (l.state.life caller.job).IsOver := by
    rcases hseen with ⟨stage, htasks⟩ | hjob
    · have hmem : ⟨ticket, caller.job, false, stage⟩ ∈ (l.state.life caller.job).tasks :=
        htasks ▸ List.mem_singleton_self _
      exact absurd rfl (hgone _ (mem_tasksOf.mp hmem).1)
    · exact hjob
  refine ⟨rfl, hthere, rfl, hgone, fun job hrecord => ?_, h.not_mem_order_of_isOver hjob,
    fun hheld => ?_⟩
  · have hfinal := hjob job hrecord
    cases hstatus : job.status <;> simp_all [Status.isTerminal]
  · have hheld := h.balanced.holders.mem_iff.mp hheld
    rw [List.mem_append, List.mem_map] at hheld
    rcases hheld with ⟨task, htask, hsame⟩ | hlent
    · exact .inl ⟨task, htask, hsame, hgone task htask⟩
    · exact .inr hlent

end Regular

-- One move takes a caller from where it was to where the move brings it.
theorem Course.heeds (h : l.Course moves caller phase deadline?)
    (hregular : (l.run moves).Regular slots) (hnext : ((l.run moves).make last).Regular slots)
    (hfresh : (l.run moves).state.NamesAfresh last)
    (hname : ∀ deadline, l.Once (Asks caller deadline) moves → last.names? ≠ some caller.job)
    (hthere : (l.run moves).state.caller? caller.tag = some { caller with phase := phase })
    (hheeds : (l.run moves).state.Heeds last { caller with phase := phase } deadline? next until?) :
    l.Course (moves ++ [last]) caller next until? := by
  have hturn := hregular.turn hfresh caller.job
  cases hheeds with
  | others hown =>
    refine h.stay (fun hmine => absurd hmine hown) (fun _ hfirst => ?_) hturn hname
    exact hown (hfirst ▸ rfl)
  | vain hsame hfirst _ =>
    refine h.stay (fun _ => ?_) hfirst hturn hname
    rw [make_state, hsame]
    exact .refl _
  | unknown hmove hphase hunknown hidle =>
    obtain rfl : phase = .fresh := hphase
    cases h with
    | fresh _ hquiet =>
      exact .answered (.unknown (once_last ⟨⟨hmove, hthere⟩, hunknown⟩)
        (hquiet.later fun _ => hidle))
  | panics _ _ _ _ _ => exact .abandoned
  | waits hlooks _ hidle =>
    obtain ⟨hasks, hquiet⟩ := h.asks_of_looks hthere hlooks
    exact .waiting hasks (hquiet.later fun _ => hidle)
  | refused hlooks hidle hreason =>
    obtain ⟨hasks, hquiet⟩ := h.asks_of_looks hthere hlooks
    exact .answered (.turnedAway hasks (once_last ⟨hlooks.own, hreason⟩)
      (hquiet.later fun _ => hidle))
  | late _ hown hasked hidle htime =>
    subst hasked
    cases h with
    | waiting hasks hquiet =>
      exact .answered (.turnedAway (hasks.later last) (once_last ⟨hown, .inr htime⟩)
        (hquiet.later fun _ => hidle))
  | granted hlooks hseizes =>
    obtain ⟨hasks, -⟩ := h.asks_of_looks hthere hlooks
    refine .running hasks (once_last ⟨hlooks.own, hseizes, rfl⟩) (.inl ⟨.starting, ?_⟩)
    have htask : ⟨(l.run moves).state.issued, caller.job, false, .starting⟩ ∈
        ((l.run moves).make last).state.tasks := by
      rw [make_state, hseizes.tasks]
      exact List.mem_append_right _ (List.mem_singleton_self _)
    rw [run_concat]
    exact hnext.balanced.tasksOf_eq htask
  | collected hmove hphase hover hidle =>
    obtain rfl : phase = .running _ := hphase
    cases h with
    | running hasks hgrants hattempt =>
      refine .answered (.ran (hasks.later last) (hgrants.later last) (once_last ?_))
      rw [hmove]
      exact hregular.yields hthere hattempt hover
  | abandoned _ _ _ => exact .abandoned

-- There is no record of a job before it has been given its name.
theorem Once.named {history : List Move} (hbuild : b.build around = .ok t)
    (hhonest : (ofState t.state).Honest (history ++ moves))
    (hapart : NamesApart (history ++ moves))
    (hasks : ((ofState t.state).run history).Once (Asks caller deadline) moves) :
    caller.job ∈ Engine.named (history ++ moves) := by
  obtain ⟨earlier, move, later, rfl, hask⟩ := hasks
  rw [← List.append_assoc] at hhonest hapart ⊢
  rw [named_append]
  refine List.mem_append_left _ ?_
  by_contra hnot
  have hblank := Blueprint.unknown_of_build hbuild (follows_append.mp hhonest).1 hapart.of_append hnot
  have hunknown := Ledger.contains_eq_false_iff.mpr hblank.record
  rw [run_append] at hunknown
  cases hunknown.symm.trans hask.known

end Loans

theorem Blueprint.numbered_of_build (hbuild : b.build around = .ok t) (moves : List Move) :
    (t.state.run moves).Numbered := by
  refine State.Numbered.run ?_ moves
  rw [state_of_build hbuild]
  exact fun caller hcaller => absurd hcaller List.not_mem_nil

section

variable (hbuild : b.build around = .ok t)
  (hhonest : (Loans.ofState t.state).Honest (before ++ .arrive id .run timeout :: after))

include hbuild hhonest

theorem stands_of_arrive :
    let start := (Loans.ofState t.state).run before
    (start.make (.arrive id .run timeout)).state.Stands
      ⟨start.state.issued, id, .run, timeout, .fresh⟩ none := by
  have hknown := (Blueprint.balanced_of_build hbuild (Loans.follows_append.mp hhonest).1).1
  have hnumbered := Blueprint.numbered_of_build hbuild before
  rw [← Loans.run_ofState] at hnumbered
  exact State.stands_arrive hnumbered hknown id .run timeout

-- Whoever is to run a job comes to one of the ends, or is still on the way there.
theorem course_of_arrive (hapart : NamesApart (before ++ .arrive id .run timeout :: after)) :
    let start := (Loans.ofState t.state).run before
    let arrived := start.make (.arrive id .run timeout)
    let caller : Caller := ⟨start.state.issued, id, .run, timeout, .fresh⟩
    ∃ phase deadline?, (arrived.run after).state.Stands { caller with phase := phase } deadline? ∧
      arrived.Course after caller phase deadline? := by
  intro start arrived caller
  induction after using List.reverseRecOn with
  | nil =>
    exact ⟨.fresh, none, stands_of_arrive hbuild hhonest, .fresh (by simp) trivial⟩
  | append_singleton after last ih =>
    rw [← List.cons_append, ← List.append_assoc] at hhonest hapart
    obtain ⟨hbefore, hreturns, -⟩ := Loans.follows_append.mp hhonest
    obtain ⟨hregular, hfresh, -⟩ := Blueprint.regular_midway hbuild hhonest hapart
    obtain ⟨phase, deadline?, hstands, hcourse⟩ := ih hbefore hapart.of_append
    have hnext := hregular.make hreturns hfresh
    rw [Loans.run_split] at hregular hfresh hnext
    obtain ⟨next, until?, hheeds, hstays⟩ := hstands.heeds_apply rfl last
    refine ⟨next, until?, ?_, hcourse.heeds hregular hnext hfresh (fun deadline hasks => ?_)
      hstands.there hheeds⟩
    · rw [Loans.run_concat]
      exact hstays
    · have hnamed := hasks.cons.named hbuild hbefore hapart.of_append
      exact names?_ne_of_not_mem (hapart.not_mem_later hnamed) (List.mem_singleton_self _)

end

-- Whoever is to run a job directly is told so if there is no such job, and that nothing was run if
-- no slot was to be had. Nothing else comes of the call then. With a slot there is an attempt, and
-- the answer comes when the job is over. Until there is an answer the caller is on the way, and one
-- who waits has time left, or is about to look.
theorem directRun_of_build (hbuild : b.build around = .ok t)
    (hhonest : (Loans.ofState t.state).Honest (before ++ .arrive id .run timeout :: after))
    (hapart : NamesApart (before ++ .arrive id .run timeout :: after)) :
    let start := (Loans.ofState t.state).run before
    let arrived := start.make (.arrive id .run timeout)
    let caller : Caller := ⟨start.state.issued, id, .run, timeout, .fresh⟩
    start.state.Idle arrived.state ∧
      (∀ earlier move later phase answer, after = earlier ++ move :: later →
        (arrived.run earlier).state.caller? caller.tag = some { caller with phase := phase } →
        (arrived.run earlier).state.Settles move { caller with phase := phase } answer →
          (arrived.run after).state.caller? caller.tag =
            some { caller with phase := .answered answer }) ∧
      ∃ phase deadline?,
        (arrived.run after).state.caller? caller.tag = some { caller with phase := phase } ∧
        arrived.Course after caller phase deadline? ∧
        ∀ deadline, deadline? = some deadline →
          ⟨caller.tag, id, deadline⟩ ∈ (arrived.run after).state.line.woken ∨
            ⟨caller.tag, id, deadline⟩ ∈ (arrived.run after).state.line.waiting ∧
              (arrived.run after).state.now < deadline := by
  intro start arrived caller
  obtain ⟨phase, deadline?, hstands, hcourse⟩ := course_of_arrive hbuild hhonest hapart
  refine ⟨rfl, ?_, phase, deadline?, hstands.there, hcourse, fun _ => hstands.awaits⟩
  rintro earlier move later phase answer rfl hthere hsettles
  rw [← List.cons_append, ← List.append_assoc] at hhonest hapart
  obtain ⟨found, until?, hstands, -⟩ :=
    course_of_arrive hbuild (Loans.follows_append.mp hhonest).1 hapart.of_append
  obtain rfl : phase = found :=
    congrArg Caller.phase (Option.some_inj.mp (hthere.symm.trans hstands.there))
  have hanswered := hstands.settles rfl hsettles
  rw [Loans.run_split, Loans.run_state]
  exact (hanswered.answered_run rfl rfl later).there

-- On one thread this is what the engine does, and by the time of an answer nothing is half done.
theorem directRun_on_one_thread (hbuild : b.build around = .ok t)
    (hhonest : (Loans.ofState t.state).Honest (before ++ .arrive id .run timeout :: after))
    (hapart : NamesApart (before ++ .arrive id .run timeout :: after)) :
    let start := (Loans.ofState t.state).run before
    let arrived := start.make (.arrive id .run timeout)
    let caller : Caller := ⟨start.state.issued, id, .run, timeout, .fresh⟩
    Threads.onOneThread t.state before = Threads.ofState start.state ∧
      (∀ earlier later, after = earlier ++ later →
        Threads.onOneThread t.state (before ++ .arrive id .run timeout :: earlier) =
          Threads.ofState (arrived.run earlier).state) ∧
      start.state.Idle arrived.state ∧
      (∀ earlier move later phase answer, after = earlier ++ move :: later →
        (arrived.run earlier).state.caller? caller.tag = some { caller with phase := phase } →
        (arrived.run earlier).state.Settles move { caller with phase := phase } answer →
          (arrived.run after).state.caller? caller.tag =
            some { caller with phase := .answered answer }) ∧
      ∃ phase deadline?,
        (arrived.run after).state.caller? caller.tag = some { caller with phase := phase } ∧
        arrived.Course after caller phase deadline? ∧
        ∀ deadline, deadline? = some deadline →
          ⟨caller.tag, id, deadline⟩ ∈ (arrived.run after).state.line.woken ∨
            ⟨caller.tag, id, deadline⟩ ∈ (arrived.run after).state.line.waiting ∧
              (arrived.run after).state.now < deadline := by
  intro start arrived caller
  refine ⟨?_, fun earlier later _ => ?_, directRun_of_build hbuild hhonest hapart⟩
  · rw [Threads.onOneThread_eq, ← Loans.run_ofState]
  · rw [Threads.onOneThread_eq, ← Loans.run_ofState, Loans.run_split]

-- A job is in the queue, and someone runs it directly. It fails in a way that could be mended, and
-- is not tried again.
def directFailure : List Move :=
  [.firstLook 0, .beginTask 1, .endTask 1 (.error (.retriable "busy")), .collect 0]

theorem directRun_on_one_thread_directFailure :
    ∃ t, (Blueprint.idle 1).build default = .ok t ∧
      (Loans.ofState t.state).Honest
        ([.submit ⟨1⟩ [] 5 (some 3)] ++ .arrive ⟨1⟩ .run 1000 :: directFailure) ∧
      NamesApart ([.submit ⟨1⟩ [] 5 (some 3)] ++ .arrive ⟨1⟩ .run 1000 :: directFailure) ∧
      (Threads.onOneThread t.state
        ([.submit ⟨1⟩ [] 5 (some 3)] ++ .arrive ⟨1⟩ .run 1000 :: directFailure)).IsSettled ∧
      ∃ job, job.status = .failed ∧
        (((Loans.ofState t.state).run [.submit ⟨1⟩ [] 5 (some 3)]).make
          (.arrive ⟨1⟩ .run 1000)).Ends directFailure ⟨0, ⟨1⟩, .run, 1000, .fresh⟩
            (.run (some job)) := by
  have hbuild : (Blueprint.idle 1).build default = .ok _ := rfl
  have hhonest : (Loans.ofState ((Blueprint.idle 1).initial default)).Honest
      ([.submit ⟨1⟩ [] 5 (some 3)] ++ .arrive ⟨1⟩ .run 1000 :: directFailure) := by decide
  have hapart : NamesApart
      ([.submit ⟨1⟩ [] 5 (some 3)] ++ .arrive ⟨1⟩ .run 1000 :: directFailure) := by decide
  obtain ⟨-, hthread, -, -, phase, deadline?, hcaller, hcourse, -⟩ :=
    directRun_on_one_thread hbuild hhonest hapart
  have hthere : (((((Loans.ofState ((Blueprint.idle 1).initial default)).run
      [.submit ⟨1⟩ [] 5 (some 3)]).make (.arrive ⟨1⟩ .run 1000)).run directFailure).state.caller?
        0) = some ⟨0, ⟨1⟩, .run, 1000, .answered (.run (some _))⟩ := rfl
  obtain rfl : phase = .answered (.run (some _)) :=
    congrArg Caller.phase (Option.some_inj.mp (hcaller.symm.trans hthere))
  cases hcourse with
  | answered hends =>
    refine ⟨_, hbuild, hhonest, hapart, ?_, _, rfl, hends⟩
    rw [hthread directFailure [] (List.append_nil _).symm]
    exact ⟨rfl, rfl⟩

-- The first attempt queues the job again before whoever runs it directly is answered. The answer is
-- that the job is completed, and the job is in the queue.
theorem relapse_yields_queued :
    ∃ t, (Blueprint.idle 1).build default = .ok t ∧
      let before := (Threads.ofState t.state).run Threads.relapse
      let after := before.apply (.whole (.collect 1))
      before.IsSettled ∧
      (∃ caller, before.state.caller? 1 = some caller ∧ caller.phase = .running 2) ∧
      (∃ caller job, after.state.caller? 1 = some caller ∧
        caller.phase = .answered (.run (some job)) ∧ job.status = .completed) ∧
      after.state.queue.order = [⟨1⟩] := by
  refine ⟨_, rfl, ?_, ⟨_, rfl, rfl⟩, ⟨_, _, rfl, rfl, rfl⟩, ?_⟩
  · decide
  · decide

end Foreman.Engine
