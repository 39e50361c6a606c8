import Foreman.Proofs.Ledger.History

namespace Foreman

namespace Job

variable {job : Job} {now starts : Nat}

-- How far a job has come after a number of attempts that began, and when that was.
inductive Standing (now starts : Nat) (job : Job) : Prop
  | pending (hstatus : job.status = .pending) (hretries : job.retries = 0)
      (herror : job.error = none) (hresult : job.result = none)
      (hstarted : job.times.started = none) (hcompleted : job.times.completed = none)
      (hstarts : starts = 0)
  | processing {started} (hstatus : job.status = .processing)
      (herror : job.error.isSome = true ↔ 0 < job.retries) (hresult : job.result = none)
      (hstarted : job.times.started = some started) (hafter : job.times.created ≤ started)
      (hbefore : started ≤ now) (hcompleted : job.times.completed = none)
      (hstarts : starts = job.retries + 1)
  | retrying {started} (hstatus : job.status = .retrying) (hretries : 0 < job.retries)
      (herror : job.error.isSome = true) (hresult : job.result = none)
      (hstarted : job.times.started = some started) (hafter : job.times.created ≤ started)
      (hbefore : started ≤ now) (hcompleted : job.times.completed = none)
      (hstarts : starts = job.retries)
  | completed {started completed} (hstatus : job.status = .completed)
      (hprogress : job.progress = 100) (herror : job.error = none)
      (hresult : job.result.isSome = true) (hstarted : job.times.started = some started)
      (hafter : job.times.created ≤ started) (hcompleted : job.times.completed = some completed)
      (hlast : started ≤ completed) (hstarts : starts = job.retries + 1)
  | failed {started completed} (hstatus : job.status = .failed) (herror : job.error.isSome = true)
      (hresult : job.result = none) (hstarted : job.times.started = some started)
      (hafter : job.times.created ≤ started) (hcompleted : job.times.completed = some completed)
      (hlast : started ≤ completed) (hstarts : starts ≤ job.retries + 1)

structure Kept (now starts : Nat) (job : Job) : Prop where
  budget : job.retries ≤ job.maxRetries
  progress : job.progress ≤ 100
  position : job.position = none
  created : job.times.created ≤ now
  standing : job.Standing now starts

-- What the record of a job that has begun a number of attempts says, by its status.
structure Recorded (starts : Nat) (job : Job) : Prop where
  budget : job.retries ≤ job.maxRetries
  progress : job.progress ≤ 100
  finished : job.status = .completed → job.progress = 100
  started : job.times.started = none ↔ job.status = .pending
  completed : job.times.completed.isSome = job.status.isTerminal
  result : job.result.isSome = true ↔ job.status = .completed
  faultless : job.status = .pending ∨ job.status = .completed → job.error = none
  faulty : job.status = .retrying ∨ job.status = .failed → job.error.isSome = true
  mended : job.status = .processing → (job.error.isSome = true ↔ 0 < job.retries)
  untried : job.status = .pending → job.retries = 0
  retried : job.status = .retrying → 0 < job.retries
  position : job.position = none
  times : ∀ started, job.times.started = some started → job.times.created ≤ started ∧
    ∀ completed, job.times.completed = some completed → started ≤ completed
  starts : starts ≤ job.retries + 1

theorem kept_fresh (id : JobId) (params : Params) (maxRetries now : Nat) :
    (fresh id params maxRetries now).Kept now 0 :=
  ⟨Nat.zero_le _, Nat.zero_le _, rfl, Nat.le_refl _, .pending rfl rfl rfl rfl rfl rfl rfl⟩

-- What a job has come through does not depend on when it is asked for, nor on its priority, nor on
-- its progress as long as it is not completed.
theorem Standing.same {last : Nat} {next : Job} (h : job.Standing now starts) (hle : now ≤ last)
    (hstatus : next.status = job.status) (hretries : next.retries = job.retries)
    (herror : next.error = job.error) (hresult : next.result = job.result)
    (htimes : next.times = job.times)
    (hprogress : job.status = .completed → next.progress = job.progress) :
    next.Standing last starts := by
  cases h with
  | pending hpending huntried hfaultless hempty hstarted hcompleted hstarts =>
    exact .pending (hstatus.trans hpending) (hretries.trans huntried) (herror.trans hfaultless)
      (hresult.trans hempty) (htimes ▸ hstarted) (htimes ▸ hcompleted) hstarts
  | processing hprocessing hmended hempty hstarted hafter hbefore hcompleted hstarts =>
    exact .processing (hstatus.trans hprocessing) (herror ▸ hretries ▸ hmended)
      (hresult.trans hempty) (htimes ▸ hstarted) (htimes ▸ hafter) (Nat.le_trans hbefore hle)
      (htimes ▸ hcompleted) (hretries ▸ hstarts)
  | retrying hretrying hretried hfaulty hempty hstarted hafter hbefore hcompleted hstarts =>
    exact .retrying (hstatus.trans hretrying) (hretries ▸ hretried) (herror ▸ hfaulty)
      (hresult.trans hempty) (htimes ▸ hstarted) (htimes ▸ hafter) (Nat.le_trans hbefore hle)
      (htimes ▸ hcompleted) (hretries ▸ hstarts)
  | completed hdone hfull hfaultless hartifact hstarted hafter hcompleted hlast hstarts =>
    exact .completed (hstatus.trans hdone) ((hprogress hdone).trans hfull)
      (herror.trans hfaultless) (hresult ▸ hartifact) (htimes ▸ hstarted) (htimes ▸ hafter)
      (htimes ▸ hcompleted) hlast (hretries ▸ hstarts)
  | failed hfailed hfaulty hempty hstarted hafter hcompleted hlast hstarts =>
    exact .failed (hstatus.trans hfailed) (herror ▸ hfaulty) (hresult.trans hempty)
      (htimes ▸ hstarted) (htimes ▸ hafter) (htimes ▸ hcompleted) hlast (hretries ▸ hstarts)

namespace Kept

variable (h : job.Kept now starts)

include h

theorem later {last : Nat} (hle : now ≤ last) : job.Kept last starts :=
  { h with
    created := Nat.le_trans h.created hle
    standing := h.standing.same hle rfl rfl rfl rfl rfl fun _ => rfl }

theorem prioritized (priority : Int) :
    ({ job with priority := some priority } : Job).Kept now starts :=
  { h with standing := h.standing.same (Nat.le_refl now) rfl rfl rfl rfl rfl fun _ => rfl }

theorem progressed (hlive : job.status.isTerminal = false) (percent : Nat) :
    ({ job with progress := min percent 100 } : Job).Kept now starts :=
  { h with
    progress := Nat.min_le_right percent 100
    standing := by
      refine h.standing.same (Nat.le_refl now) rfl rfl rfl rfl rfl fun hdone => ?_
      rw [hdone] at hlive
      cases hlive }

theorem begun (hcan : job.status.canBecome .processing = true) :
    (job.begun now).Kept now (starts + 1) where
  budget := h.budget
  progress := h.progress
  position := rfl
  created := h.created
  standing := by
    cases h.standing with
    | pending hstatus hretries herror hresult hstarted hcompleted hstarts =>
      refine .processing rfl ?_ hresult rfl h.created (Nat.le_refl now) hcompleted ?_
      · simp only [Job.begun, herror, hretries, Option.isSome_none, Bool.false_eq_true,
          Nat.lt_irrefl]
      · simp only [Job.begun, hretries, hstarts]
    | retrying hstatus hretries herror hresult hstarted hafter hbefore hcompleted hstarts =>
      exact .processing rfl (iff_of_true herror hretries) hresult rfl h.created (Nat.le_refl now)
        hcompleted (congrArg (· + 1) hstarts)
    | _ hstatus => simp [hstatus, Status.canBecome] at hcan

theorem completedWith (hcan : job.status.canBecome .completed = true) (artifact : Artifact) :
    (job.completedWith artifact now).Kept now starts where
  budget := h.budget
  progress := Nat.le_refl 100
  position := h.position
  created := h.created
  standing := by
    cases h.standing with
    | processing hstatus herror hresult hstarted hafter hbefore hcompleted hstarts =>
      exact .completed rfl rfl rfl rfl hstarted hafter rfl hbefore hstarts
    | _ hstatus => simp [hstatus, Status.canBecome] at hcan

theorem retriedAfter (hcan : job.status.canBecome .retrying = true) (hbudget : job.canRetry = true)
    (reason : String) : (job.retriedAfter reason).Kept now starts where
  budget := Nat.succ_le_of_lt (of_decide_eq_true hbudget)
  progress := h.progress
  position := h.position
  created := h.created
  standing := by
    cases h.standing with
    | processing hstatus herror hresult hstarted hafter hbefore hcompleted hstarts =>
      exact .retrying rfl (Nat.succ_pos _) rfl hresult hstarted hafter hbefore hcompleted hstarts
    | _ hstatus => simp [hstatus, Status.canBecome] at hcan

-- A job can fail in an attempt, and before the next one too.
theorem failedWith (hcan : job.status.canBecome .failed = true) (reason : String) :
    (job.failedWith reason now).Kept now starts where
  budget := h.budget
  progress := h.progress
  position := h.position
  created := h.created
  standing := by
    cases h.standing with
    | processing hstatus herror hresult hstarted hafter hbefore hcompleted hstarts =>
      exact .failed rfl rfl hresult hstarted hafter rfl hbefore (Nat.le_of_eq hstarts)
    | retrying hstatus hretries herror hresult hstarted hafter hbefore hcompleted hstarts =>
      exact .failed rfl rfl hresult hstarted hafter rfl hbefore
        (Nat.le_succ_of_le (Nat.le_of_eq hstarts))
    | _ hstatus => simp [hstatus, Status.canBecome] at hcan

end Kept

theorem Kept.recorded (h : job.Kept now starts) : job.Recorded starts := by
  obtain ⟨hbudget, hprogress, hposition, -, hstanding⟩ := h
  cases hstanding <;> constructor <;> simp_all [Status.isTerminal]

end Job

namespace Chronicle

structure Sound (c : Chronicle) : Prop where
  distinct : c.ledger.Distinct
  kept : ∀ id job, c.ledger.get? id = some job → job.Kept c.now (c.starts id)

theorem sound_start (now : Nat) : (start now).Sound :=
  ⟨List.nodup_nil, fun _ _ (hjob : none = some _) => nomatch hjob⟩

namespace Sound

variable {c : Chronicle} {l' : Ledger} {id : JobId} {job next : Job} (h : c.Sound) (time : Nat)

include h

theorem of_known (hknown : ∀ id job, l'.get? id = some job → c.ledger.get? id = some job)
    (hdistinct : l'.Distinct) : (c.advance none l' time).Sound where
  distinct := hdistinct
  kept := by
    intro id job hjob
    have hbefore := hknown id job hjob
    have hsame : l'.get? id = c.ledger.get? id := hjob.trans hbefore.symm
    rw [starts_advance_of_eq time (Option.some_ne_none id).symm hsame]
    exact (h.kept id job hbefore).later (Nat.le_add_right c.now time)

-- Where one record is new, the others stand as they did.
theorem of_touches {named : Option JobId} (htouches : c.ledger.Touches id l')
    (hnamed : ∀ other, named = some other → other = id)
    (hkept : ∀ job, l'.get? id = some job →
      job.Kept c.now ((c.advance named l' time).starts id)) :
    (c.advance named l' time).Sound where
  distinct := htouches.distinct h.distinct
  kept := by
    intro other job hjob
    apply Job.Kept.later _ (Nat.le_add_right c.now time)
    by_cases he : other = id
    · subst he
      exact hkept job hjob
    · have hsame := htouches.others other he
      rw [starts_advance_of_eq time (fun hother => he (hnamed other hother)) hsame]
      exact h.kept other job (hsame ▸ hjob)

theorem of_rewrites (hrewrites : c.ledger.Rewrites id job next l')
    (hbegun : next.status = .processing → job.status = .processing)
    (hkept : job.Kept c.now (c.starts id) → next.Kept c.now (c.starts id)) :
    (c.advance none l' time).Sound := by
  refine h.of_touches time hrewrites.toTouches nofun (Ledger.forall_get? hrewrites.after ?_)
  rw [starts_advance_of_rewrites time hrewrites hbegun]
  exact hkept (h.kept id job hrewrites.before)

theorem of_begun (hrewrites : c.ledger.Rewrites id job (job.begun c.now) l')
    (hcan : job.status.canBecome .processing = true) : (c.advance none l' time).Sound := by
  have hidle : job.status ≠ .processing := by
    intro hbusy
    rw [hbusy, Status.canBecome_self] at hcan
    cases hcan
  refine h.of_touches time hrewrites.toTouches nofun (Ledger.forall_get? hrewrites.after ?_)
  rw [starts_advance_of_begun time hrewrites hidle rfl]
  exact (h.kept id job hrewrites.before).begun hcan

-- A name that comes again stands for a new job, which has begun no attempt.
theorem of_create (params : Params) (maxRetries : Nat) :
    (c.advance (some id) (c.ledger.create id params maxRetries c.now).2 time).Sound := by
  obtain ⟨htouches, hafter⟩ := c.ledger.create_touches id params maxRetries c.now
  refine h.of_touches time htouches (fun _ hother => (Option.some_inj.mp hother).symm)
    (Ledger.forall_get? hafter ?_)
  rw [starts_advance_named]
  exact Job.kept_fresh id params maxRetries c.now

theorem advance {named : Option JobId} (hbecomes : c.ledger.Becomes c.now named l') :
    (c.advance named l' time).Sound := by
  cases hbecomes with
  | unchanged => exact h.of_known time (fun _ _ hjob => hjob) h.distinct
  | created id params maxRetries => exact h.of_create time params maxRetries
  | prioritized hrewrites => exact h.of_rewrites time hrewrites id fun hkept => hkept.prioritized _
  | begun hcan hrewrites => exact h.of_begun time hrewrites hcan
  | completed hcan hrewrites =>
    exact h.of_rewrites time hrewrites nofun fun hkept => hkept.completedWith hcan _
  | retried hcan hbudget hrewrites =>
    exact h.of_rewrites time hrewrites nofun fun hkept => hkept.retriedAfter hcan hbudget _
  | failed hcan hrewrites =>
    exact h.of_rewrites time hrewrites nofun fun hkept => hkept.failedWith hcan _
  | progressed hlive hrewrites =>
    exact h.of_rewrites time hrewrites id fun hkept => hkept.progressed hlive _
  | discarded htouches hnone =>
    exact h.of_touches time htouches nofun fun _ hjob => nomatch hnone.symm.trans hjob
  | evicted ttl =>
    have hsheds := Ledger.evict_sheds h.distinct ttl c.now
    exact h.of_known time hsheds.known hsheds.distinct

theorem run (acts : List Act) : (c.run acts).Sound := by
  induction acts generalizing c with
  | nil => exact h
  | cons act acts ih => exact ih (h.advance act.time (c.ledger.act_becomes c.now act))

end Sound

end Chronicle

theorem recorded_of_run (now : Nat) (acts : List Act) {id : JobId} {job : Job}
    (hjob : ((Chronicle.start now).run acts).ledger.get? id = some job) :
    job.Recorded (((Chronicle.start now).run acts).starts id) :=
  (((Chronicle.sound_start now).run acts).kept id job hjob).recorded

-- A job that completes at its second attempt, after a move that was turned down.
def mendedHistory : List Act :=
  [.create ⟨1⟩ [] 1, .complete ⟨1⟩ ⟨"out", 8, 0⟩, .startAttempt ⟨1⟩, .wait 5, .retry ⟨1⟩ "busy",
    .move ⟨1⟩ .processing none none, .setProgress ⟨1⟩ 40, .wait 3, .complete ⟨1⟩ ⟨"out", 8, 0⟩]

theorem recorded_of_run_mendedHistory :
    ∃ job, ((Chronicle.start 10).run mendedHistory).ledger.get? ⟨1⟩ = some job ∧
      job.Recorded 2 ∧ job.status = .completed ∧ job.retries = 1 ∧
      job.times = ⟨10, some 15, some 18⟩ := by
  have hjob : ((Chronicle.start 10).run mendedHistory).ledger.get? ⟨1⟩ = some _ := rfl
  exact ⟨_, hjob, recorded_of_run 10 mendedHistory hjob, rfl, rfl, rfl⟩

end Foreman
