import Foreman.Proofs.Engine.Names
import Foreman.Proofs.Engine.Threads

namespace Foreman.Engine

variable {b : Blueprint} {around : Surroundings} {t : Timeline} {s : State} {l : Loans}
  {move : Move} {moves earlier later : List Move} {slots : Nat} {id : JobId} {life : Life}
  {calls : Bool}

-- A job that is not over waits or has an attempt, and one that is gone was evicted.
structure Life.Kept (life : Life) : Prop where
  live : ∀ job, life.record = some job → job.status.isTerminal = false →
    life.entries ≠ [] ∨ life.tasks ≠ []
  gone : life.record = none → life.isEvicted = true

namespace Turn

-- A job may change as long as it neither starts to live again nor loses its place.
theorem kept_of_record {next : Job} (h : (s.life id).Kept) {job : Job}
    (hjob : (s.life id).record = some job)
    (hlive : next.status.isTerminal = false → job.status.isTerminal = false) :
    ({ s.life id with record := some next } : Life).Kept where
  live := by
    intro found hfound hfoundLive
    obtain rfl := Option.some_inj.mp hfound
    exact h.live job hjob (hlive hfoundLive)
  gone := fun hnone => by cases hnone

theorem kept (hturn : Turn s move id calls life) (h : (s.life id).Kept)
    (hname : move.names? ≠ some id) (htakes : move ≠ .takeJob)
    (hwithdraws : move ≠ .withdrawJob id) : life.Kept := by
  cases hturn with
  | still => exact h
  | created _ _ hmove _ => exact absurd hmove hname
  | submitted hmove _ _ _ _ => exact absurd hmove hname
  | prioritized _ _ hjob _ => exact kept_of_record h hjob (fun hlive => hlive)
  | queued _ _ _ _ _ => exact ⟨fun _ _ _ => .inl (by simp), fun hnone => by cases hnone⟩
  | taken hmove _ => exact absurd hmove htakes
  | admitted ticket requeues _ => exact ⟨fun _ _ _ => .inr (by simp), h.gone⟩
  | begun _ _ _ _ => exact ⟨fun _ _ _ => .inr (by simp), fun hnone => by cases hnone⟩
  | skipped _ _ hover =>
    refine ⟨fun job hjob hlive => ?_, h.gone⟩
    rw [hover job hjob] at hlive
    cases hlive
  | progressed _ hjob _ => exact kept_of_record h hjob (fun hlive => hlive)
  | ended _ _ hjob _ hentries hconcludes =>
    refine ⟨fun job hrecord hlive => .inl ?_, fun hnone => by cases hnone⟩
    obtain rfl := Option.some_inj.mp hrecord
    cases hconcludes with
    | retried _ _ _ =>
      -- The job is in the queue again, where it was not before.
      rw [(Ledger.get?_mem hjob).2,
        s.queue.entriesOf_joined _ _ (Queue.entriesOf_eq_nil_iff.mp hentries), if_pos rfl]
      simp
    | _ => cases hlive
  | claimed path _ => exact ⟨h.live, h.gone⟩
  | released _ => exact ⟨h.live, h.gone⟩
  | withdrawn hmove _ _ => exact absurd hmove hwithdraws
  | discarded hmove _ _ _ => exact absurd hmove hwithdraws
  | evicted _ _ => exact ⟨fun job hjob => by (cases hjob), fun _ => rfl⟩

theorem evicted_cases (hturn : Turn s move id calls life) (hevicted : life.isEvicted = true) :
    (s.life id).isEvicted = true ∨
      ∃ job, s.ledger.get? id = some job ∧ job.status.isTerminal = true := by
  cases hturn with
  | evicted hjob hover => exact .inr ⟨_, hjob, hover⟩
  | _ => exact .inl hevicted

end Turn

namespace Loans.Lawful

theorem kept (hlawful : l.Lawful moves) (h : l.Regular slots) (hkept : (l.state.life id).Kept)
    (hmoves : ∀ move ∈ moves, move.names? ≠ some id ∧ move ≠ .takeJob ∧ move ≠ .withdrawJob id) :
    ((l.run moves).state.life id).Kept := by
  induction moves generalizing l with
  | nil => exact hkept
  | cons move moves ih =>
    obtain ⟨⟨hreturns, hfresh⟩, hlawful⟩ := hlawful
    obtain ⟨hname, htakes, hwithdraws⟩ := hmoves move List.mem_cons_self
    exact ih hlawful (h.make hreturns hfresh)
      ((h.turn hfresh id).kept hkept hname htakes hwithdraws)
      (fun other hother => hmoves other (List.mem_cons_of_mem _ hother))

-- A job that was evicted was over at some time before.
theorem over_of_evicted (hlawful : l.Lawful moves) (h : l.Regular slots)
    (hbefore : (l.state.life id).isEvicted = false)
    (hevicted : ((l.run moves).state.life id).isEvicted = true) :
    ∃ earlier, earlier <+: moves ∧ ∃ job, (l.run earlier).state.ledger.get? id = some job ∧
      job.status.isTerminal = true := by
  induction moves generalizing l with
  | nil => cases hbefore.symm.trans hevicted
  | cons move moves ih =>
    obtain ⟨⟨hreturns, hfresh⟩, hlawful⟩ := hlawful
    cases hnow : ((l.make move).state.life id).isEvicted with
    | false =>
      obtain ⟨earlier, hprefix, hover⟩ := ih hlawful (h.make hreturns hfresh) hnow hevicted
      exact ⟨move :: earlier, List.cons_prefix_cons.mpr ⟨rfl, hprefix⟩, hover⟩
    | true =>
      rcases (h.turn hfresh id).evicted_cases hnow with halready | hover
      · cases hbefore.symm.trans halready
      · exact ⟨[], List.nil_prefix, hover⟩

end Loans.Lawful

-- Where a job can be.
inductive Whereabouts where
  | waiting
  | attempted
  | finished
  | evicted
  deriving DecidableEq, Repr

namespace Whereabouts

-- Where a job is after a run, on an engine of which `run` says what becomes of it.
def Finds {α : Type} (run : List α → State) (moves : List α) (id : JobId) : Whereabouts → Prop
  | waiting => (run moves).queue.order.count id = 1 ∧ tasksOf (run moves).tasks id = [] ∧
    ∃ job, (run moves).ledger.get? id = some job ∧
      (job.status = .pending ∨ job.status = .retrying)
  | attempted => (run moves).queue.order.count id = 0 ∧
    (∃ task, tasksOf (run moves).tasks id = [task]) ∧
    ∃ job, (run moves).ledger.get? id = some job ∧ job.status = .processing
  | finished => (run moves).queue.order.count id = 0 ∧ tasksOf (run moves).tasks id = [] ∧
    ∃ job, (run moves).ledger.get? id = some job ∧ job.status.isTerminal = true
  | evicted => (run moves).queue.order.count id = 0 ∧ tasksOf (run moves).tasks id = [] ∧
    (run moves).ledger.get? id = none ∧ id ∈ (run moves).evicted ∧
    ∃ earlier, earlier <+: moves ∧ ∃ job, (run earlier).ledger.get? id = some job ∧
      job.status.isTerminal = true

def ofRecord : Option Job → Whereabouts
  | none => evicted
  | some job => match job.status with
    | .pending | .retrying => waiting
    | .processing => attempted
    | .completed | .failed => finished

theorem eq_ofRecord {place : Whereabouts} (h : place.Finds s.run moves id) :
    place = ofRecord ((s.run moves).ledger.get? id) := by
  cases place with
  | waiting =>
    obtain ⟨-, -, job, hjob, hstatus | hstatus⟩ := h
    · simp only [hjob, ofRecord, hstatus]
    · simp only [hjob, ofRecord, hstatus]
  | attempted =>
    obtain ⟨-, -, job, hjob, hstatus⟩ := h
    simp only [hjob, ofRecord, hstatus]
  | finished =>
    obtain ⟨-, -, job, hjob, hover⟩ := h
    cases hstatus : job.status <;> simp_all [ofRecord, Status.isTerminal]
  | evicted =>
    obtain ⟨-, -, hnone, -⟩ := h
    simp only [hnone, ofRecord]

-- There is no place for a job that is in the queue when it is over.
theorem finds_nowhere {α : Type} {run : List α → State} {moves : List α}
    (hqueued : (run moves).queue.order.count id ≠ 0)
    (hover : ((run moves).ledger.get? id).map Job.status = some .completed) :
    ¬ ∃ place : Whereabouts, place.Finds run moves id := by
  rintro ⟨place, hplace⟩
  cases place with
  | waiting =>
    obtain ⟨-, -, job, hjob, hstatus⟩ := hplace
    rw [hjob, Option.map_some, Option.some_inj] at hover
    simp [hover] at hstatus
  | attempted => exact hqueued hplace.1
  | finished => exact hqueued hplace.1
  | evicted => exact hqueued hplace.1

end Whereabouts

namespace Loans.Regular

variable (h : l.Regular slots)

include h

theorem count_eq_zero {job : Job} (hjob : l.state.ledger.get? id = some job)
    (hcan : job.status.canBecome .processing = false) : l.state.queue.order.count id = 0 := by
  rw [List.count_eq_zero]
  intro hqueued
  obtain ⟨found, hfound, hready, -⟩ := h.faithful.queued id hqueued
  obtain rfl := Option.some_inj.mp (hjob.symm.trans hfound)
  rw [hcan] at hready
  cases hready

theorem count_eq_zero_of_none (hnone : l.state.ledger.get? id = none) :
    l.state.queue.order.count id = 0 := by
  rw [List.count_eq_zero]
  intro hqueued
  obtain ⟨found, hfound, -⟩ := h.faithful.queued id hqueued
  cases hnone.symm.trans hfound

-- Where no attempt is about to begin, only a job in progress has one.
theorem tasksOf_eq_nil (hsettled : ∀ task ∈ l.state.tasks, task.stage.isRunning = true)
    (hidle : ∀ job, l.state.ledger.get? id = some job → job.status ≠ .processing) :
    tasksOf l.state.tasks id = [] := by
  rw [tasksOf_eq_nil_iff]
  rintro task htask rfl
  have hrunning := hsettled task htask
  cases hstage : task.stage with
  | starting =>
    rw [hstage] at hrunning
    cases hrunning
  | running before =>
    obtain ⟨job, hjob, hstatus⟩ := h.faithful.running task htask before hstage
    exact hidle job hjob hstatus

theorem count_eq_one (hqueued : id ∈ l.state.queue.order) : l.state.queue.order.count id = 1 :=
  List.count_eq_one_of_mem h.balanced.queue.distinct hqueued

end Loans.Regular

theorem State.mem_order_of_enqueue {priority : Int} {position : Nat} {s' : State}
    (h : s.enqueue id priority = (.ok position, s')) : id ∈ s'.queue.order := by
  obtain ⟨fault, heq, -⟩ | ⟨job, ledger, -, -, hcases⟩ := s.enqueue_cases id priority
  · rw [heq] at h
    cases h
  · obtain ⟨fault, heq, -⟩ | ⟨found, heq, hin⟩ | ⟨found, heq, -⟩ := hcases
    · rw [heq] at h
      cases h
    · rw [heq] at h
      cases h
      exact hin
    · rw [heq] at h
      cases h
      exact Queue.mem_order_joined.mpr (.inl rfl)

-- A job that is accepted is queued.
theorem State.mem_order_of_submit {params : Params} {priority : Int} {maxRetries : Option Nat}
    {job : Job} (h : (s.submit id params priority maxRetries).1 = .ok job) :
    id ∈ (s.submit id params priority maxRetries).2.queue.order := by
  rw [submit_eq]
  have hid : (s.addJob id params maxRetries).1.id = id := rfl
  rcases hadd : s.addJob id params maxRetries with ⟨added, next⟩
  rw [hadd] at hid
  subst hid
  simp only [submit, hadd] at h
  rcases henqueue : next.enqueue added.id priority with ⟨fault | position, last⟩
  · rw [henqueue] at h
    cases h
  · exact mem_order_of_enqueue henqueue

theorem Whereabouts.finds_ofRecord (hlawful : (Loans.ofState s).Lawful moves)
    (h : (Loans.ofState s).Regular slots) (hbefore : (s.life id).isEvicted = false)
    (hkept : ((s.run moves).life id).Kept)
    (hsettled : ∀ task ∈ (s.run moves).tasks, task.stage.isRunning = true) :
    (ofRecord ((s.run moves).ledger.get? id)).Finds s.run moves id := by
  have hregular := hlawful.regular h
  have hstate : ∀ moves, s.run moves = ((Loans.ofState s).run moves).state :=
    fun moves => (Loans.run_state (Loans.ofState s) moves).symm
  rw [hstate] at hkept hsettled ⊢
  cases hjob : ((Loans.ofState s).run moves).state.ledger.get? id with
  | none =>
    have hgone := hkept.gone hjob
    obtain ⟨earlier, hprefix, hover⟩ := hlawful.over_of_evicted h hbefore hgone
    simp only [ofRecord, Finds, hstate]
    refine ⟨hregular.count_eq_zero_of_none hjob, ?_, hjob, List.contains_iff_mem.mp hgone,
      earlier, hprefix, hover⟩
    exact hregular.tasksOf_eq_nil hsettled fun found hfound => by cases hjob.symm.trans hfound
  | some job =>
    have hidle : job.status ≠ .processing →
        tasksOf ((Loans.ofState s).run moves).state.tasks id = [] := fun hne =>
      hregular.tasksOf_eq_nil hsettled (Ledger.forall_get? hjob hne)
    -- A job that waits for its next attempt has to wait in the queue.
    have hwaiting : job.status.isTerminal = false → job.status ≠ .processing →
        ((Loans.ofState s).run moves).state.queue.order.count id = 1 := by
      intro hlive hne
      refine hregular.count_eq_one ?_
      rcases hkept.live job hjob hlive with hentries | htasks
      · by_contra hout
        exact hentries (Queue.entriesOf_eq_nil_iff.mpr hout)
      · exact absurd (hidle hne) htasks
    cases hstatus : job.status with
    | pending =>
      simp only [ofRecord, hstatus, Finds, hstate]
      refine ⟨hwaiting ?_ ?_, hidle ?_, job, hjob, .inl hstatus⟩ <;>
        simp [hstatus, Status.isTerminal]
    | retrying =>
      simp only [ofRecord, hstatus, Finds, hstate]
      refine ⟨hwaiting ?_ ?_, hidle ?_, job, hjob, .inr hstatus⟩ <;>
        simp [hstatus, Status.isTerminal]
    | processing =>
      simp only [ofRecord, hstatus, Finds, hstate]
      obtain ⟨task, htask, rfl, -⟩ := hregular.balanced.processing id job hjob hstatus
      exact ⟨hregular.count_eq_zero hjob (by rw [hstatus]; rfl),
        ⟨task, hregular.balanced.tasksOf_eq htask⟩, job, hjob, hstatus⟩
    | completed =>
      simp only [ofRecord, hstatus, Finds, hstate]
      exact ⟨hregular.count_eq_zero hjob (by rw [hstatus]; rfl), hidle (by simp [hstatus]),
        job, hjob, by rw [hstatus]; rfl⟩
    | failed =>
      simp only [ofRecord, hstatus, Finds, hstate]
      exact ⟨hregular.count_eq_zero hjob (by rw [hstatus]; rfl), hidle (by simp [hstatus]),
        job, hjob, by rw [hstatus]; rfl⟩

-- From the move on that accepts a job, it is never lost.
theorem kept_of_submit {params : Params} {priority : Int} {maxRetries : Option Nat} {job : Job}
    (hbuild : b.build around = .ok t)
    (hmoves : moves = earlier ++ .submit id params priority maxRetries :: later)
    (hhonest : (Loans.ofState t.state).Honest moves) (hapart : NamesApart moves)
    (haccepted : ((t.state.run earlier).submit id params priority maxRetries).1 = .ok job)
    (hlater : ∀ move ∈ later, move ≠ .takeJob ∧ move ≠ .withdrawJob id) :
    ((t.state.run moves).life id).Kept := by
  subst hmoves
  obtain ⟨hbefore, hfresh, -⟩ := Blueprint.regular_midway hbuild hhonest hapart
  obtain ⟨-, ⟨hreturns, -⟩, hlawful⟩ :=
    Loans.follows_append.mp (Blueprint.lawful_of_build hbuild hhonest hapart)
  have hsubmitted := hbefore.make hreturns hfresh
  have hqueued : id ∈ (((Loans.ofState t.state).run earlier).make
      (.submit id params priority maxRetries)).state.queue.order := by
    rw [Loans.make_state, Loans.run_ofState]
    exact State.mem_order_of_submit haccepted
  obtain ⟨found, hfound, -⟩ := hsubmitted.faithful.queued id hqueued
  have hstart : ((((Loans.ofState t.state).run earlier).make
      (.submit id params priority maxRetries)).state.life id).Kept := by
    refine ⟨fun _ _ _ => .inl fun hnone => ?_, fun hnone => ?_⟩
    · exact Queue.entriesOf_eq_nil_iff.mp hnone hqueued
    · cases hnone.symm.trans hfound
  have hend := Loans.Lawful.kept hlawful hsubmitted hstart fun move hmove =>
    ⟨names?_ne_of_not_mem (hapart.split rfl).2 hmove, hlater move hmove⟩
  rw [Loans.run_state, Loans.make_state, Loans.run_ofState] at hend
  rw [State.run_append]
  exact hend

-- Every job that was accepted is in exactly one place, as long as nobody takes jobs out of the
-- queue by hand and no attempt is just about to begin.
theorem whereabouts_of_build {params : Params} {priority : Int} {maxRetries : Option Nat}
    {job : Job} (hbuild : b.build around = .ok t)
    (hmoves : moves = earlier ++ .submit id params priority maxRetries :: later)
    (hhonest : (Loans.ofState t.state).Honest moves) (hapart : NamesApart moves)
    (haccepted : ((t.state.run earlier).submit id params priority maxRetries).1 = .ok job)
    (hlater : ∀ move ∈ later, move ≠ .takeJob ∧ move ≠ .withdrawJob id)
    (hsettled : ∀ task ∈ (t.state.run moves).tasks, task.stage.isRunning = true) :
    ∃! place : Whereabouts, place.Finds t.state.run moves id := by
  have hkept := kept_of_submit hbuild hmoves hhonest hapart haccepted hlater
  have hfinds := Whereabouts.finds_ofRecord (Blueprint.lawful_of_build hbuild hhonest hapart)
    (Blueprint.regular_of_build hbuild) (Blueprint.unknown_of_start hbuild id).evicted hkept hsettled
  exact ⟨_, hfinds, fun place hplace => Whereabouts.eq_ofRecord hplace⟩

-- On one thread a job is taken out of one place and put into the next before anything else happens.
theorem whereabouts_on_one_thread {params : Params} {priority : Int} {maxRetries : Option Nat}
    {job : Job} (hbuild : b.build around = .ok t)
    (hmoves : moves = earlier ++ .submit id params priority maxRetries :: later)
    (hhonest : (Loans.ofState t.state).Honest moves) (hapart : NamesApart moves)
    (haccepted : ((Threads.onOneThread t.state earlier).state.submit id params priority
      maxRetries).1 = .ok job)
    (hlater : ∀ move ∈ later, move ≠ .takeJob ∧ move ≠ .withdrawJob id)
    (hsettled : ∀ task ∈ (Threads.onOneThread t.state moves).state.tasks,
      task.stage.isRunning = true) :
    ∃! place : Whereabouts,
      place.Finds (fun moves => (Threads.onOneThread t.state moves).state) moves id := by
  simp only [Threads.onOneThread_eq] at haccepted hsettled ⊢
  exact whereabouts_of_build hbuild hmoves hhonest hapart haccepted hlater hsettled

-- Of two jobs that share a slot, the first fails and is queued again behind the second.
def retriedRun : List Move :=
  [.submit ⟨1⟩ [] 5 none, .submit ⟨2⟩ [] 5 none, .start, .poll, .beginTask 0,
    .endTask 0 (.error (.retriable "busy"))]

theorem whereabouts_on_one_thread_retriedRun :
    ∃ t job, (Blueprint.idle 1).build default = .ok t ∧
      (Loans.ofState t.state).Honest retriedRun ∧ NamesApart retriedRun ∧
      ((Threads.onOneThread t.state []).state.submit ⟨1⟩ [] 5 none).1 = .ok job ∧
      (∀ task ∈ (Threads.onOneThread t.state retriedRun).state.tasks,
        task.stage.isRunning = true) ∧
      ∃! place : Whereabouts, place.Finds
        (fun moves => (Threads.onOneThread t.state moves).state) retriedRun ⟨1⟩ := by
  have hbuild : (Blueprint.idle 1).build default = .ok _ := rfl
  have hsplit : retriedRun = [] ++ .submit ⟨1⟩ [] 5 none :: retriedRun.tail := rfl
  refine ⟨_, _, hbuild, ?_, ?_, rfl, ?_,
    whereabouts_on_one_thread hbuild hsplit ?_ ?_ rfl ?_ ?_⟩
  · decide
  · decide
  · decide
  · decide
  · decide
  · simp [retriedRun]
  · decide

-- Then the job is both over and in the queue.
theorem relapse_doubles :
    ∃ t, (Blueprint.idle 1).build default = .ok t ∧
      let after := (Threads.ofState t.state).run Threads.relapse
      after.IsSettled ∧ after.state.tasks = [] ∧ after.state.queue.order = [⟨1⟩] ∧
      (after.state.ledger.get? ⟨1⟩).map Job.status = some .completed ∧
      ¬ ∃ place : Whereabouts, place.Finds
        (fun steps => ((Threads.ofState t.state).run steps).state) Threads.relapse ⟨1⟩ := by
  refine ⟨_, rfl, ?_, rfl, ?_, ?_, Whereabouts.finds_nowhere ?_ ?_⟩
  · decide
  · decide
  · decide
  · decide
  · decide

end Foreman.Engine
