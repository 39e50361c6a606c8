import Foreman.Proofs.Engine.Annals

namespace Foreman.Engine

-- What an engine keeps about one job.
structure Life where
  record : Option Job
  entries : List Entry
  tasks : List Task
  paths : List Path
  reports : List AttemptRecord
  isEvicted : Bool

def tasksOf (tasks : List Task) (id : JobId) : List Task :=
  tasks.filter (fun task => task.job == id)

def reportsOf (reports : List AttemptRecord) (id : JobId) : List AttemptRecord :=
  reports.filter (fun report => report.job == id)

def Annals.life (a : Annals) (id : JobId) : Life where
  record := a.ledger.get? id
  entries := a.queue.entriesOf id
  tasks := tasksOf a.tasks id
  paths := a.registry.paths id
  reports := reportsOf a.reported id
  isEvicted := a.evicted.contains id

def State.life (s : State) (id : JobId) : Life := s.annals.life id

-- The attempts that were made, as opposed to those that were skipped.
def Life.attempts (life : Life) : List AttemptRecord :=
  life.reports.filter (fun report => report.outcome != .skipped)

-- Everything that a move can mean for one job, and whether it calls the operation for it.
inductive Turn (s : State) (move : Move) (id : JobId) : Bool → Life → Prop
  | still : Turn s move id false (s.life id)
  | created (params : Params) (maxRetries : Nat) (hmove : move.names? = some id)
      (hnone : (s.life id).record = none) :
      Turn s move id false { s.life id with record := some (Job.fresh id params maxRetries s.now) }
  | submitted {job} (hmove : move.names? = some id)
      (hnone : (s.life id).record = none) (hentries : (s.life id).entries = [])
      (hnew : ∃ params maxRetries, job = Job.fresh id params maxRetries s.now) (priority : Int) :
      Turn s move id false { s.life id with
        record := some { job with priority := some priority }
        entries := [⟨id, priority, s.now, s.queue.issued⟩] }
  | prioritized {job} (priority : Int) (hmove : move = .enqueue id priority)
      (hjob : (s.life id).record = some job) (hpending : job.status = .pending) :
      Turn s move id false { s.life id with record := some { job with priority := some priority } }
  | queued {job} (priority : Int) (hmove : move = .enqueue id priority)
      (hjob : (s.life id).record = some job) (hpending : job.status = .pending)
      (hentries : (s.life id).entries = []) :
      Turn s move id false { s.life id with
        record := some { job with priority := some priority }
        entries := [⟨id, priority, s.now, s.queue.issued⟩] }
  | taken (hmove : move = .takeJob) (hentries : (s.life id).entries ≠ []) :
      Turn s move id false { s.life id with entries := [] }
  | admitted (ticket : Nat) (requeues : Bool) (htasks : (s.life id).tasks = []) :
      Turn s move id false { s.life id with
        entries := []
        tasks := [⟨ticket, id, requeues, .starting⟩] }
  | begun {task job} (htasks : (s.life id).tasks = [task]) (hstage : task.stage = .starting)
      (hjob : (s.life id).record = some job) (hready : job.status.canBecome .processing = true) :
      Turn s move id true { s.life id with
        record := some (job.begun s.now)
        tasks := [{ task with stage := .running (job.begun s.now) }] }
  | skipped {task} (htasks : (s.life id).tasks = [task]) (hstage : task.stage = .starting)
      (hover : ∀ job, (s.life id).record = some job → job.status.isTerminal = true) :
      Turn s move id false { s.life id with
        tasks := []
        reports := (s.life id).reports ++ [⟨id, 0, .skipped, Span.zero, s.now⟩] }
  | progressed {job} (percent : Nat) (hjob : (s.life id).record = some job)
      (hstatus : job.status = .processing) :
      Turn s move id false { s.life id with record := some { job with progress := percent } }
  | ended {task before job next queue outcome result} (htasks : (s.life id).tasks = [task])
      (hstage : task.stage = .running before) (hjob : (s.life id).record = some job)
      (hstatus : job.status = .processing) (hentries : (s.life id).entries = [])
      (hconcludes : s.Concludes task.requeues job result next queue outcome) :
      Turn s move id false { s.life id with
        record := some next
        entries := queue.entriesOf id
        tasks := []
        paths := (s.claimsAfter id result).paths id
        reports := (s.life id).reports ++ [⟨id, job.retries + 1, outcome, Span.zero, s.now⟩] }
  | claimed {job} (path : Path) (hjob : (s.life id).record = some job) :
      Turn s move id false { s.life id with paths := (s.registry.claim id path).paths id }
  | released (hmove : move = .unprotect id) : Turn s move id false { s.life id with paths := [] }
  | withdrawn (hmove : move = .withdrawJob id)
      (hentries : (s.life id).entries ≠ [])
      (hrecord : ∀ job, (s.life id).record = some job → job.status ≠ .pending) :
      Turn s move id false { s.life id with entries := [] }
  | discarded {job} (hmove : move = .withdrawJob id) (hentries : (s.life id).entries ≠ [])
      (hjob : (s.life id).record = some job) (hpending : job.status = .pending) :
      Turn s move id false { s.life id with record := none, entries := [] }
  | evicted {job} (hjob : (s.life id).record = some job) (hover : job.status.isTerminal = true) :
      Turn s move id false { s.life id with record := none, paths := [], isEvicted := true }

section

variable {a : Account} {slots : Nat} {task : Task} {id : JobId}

theorem tasksOf_eq_nil_iff {tasks : List Task} :
    tasksOf tasks id = [] ↔ ∀ task ∈ tasks, task.job ≠ id := by
  simp only [tasksOf, List.filter_eq_nil_iff, beq_iff_eq, ne_eq]

theorem mem_tasksOf {tasks : List Task} :
    task ∈ tasksOf tasks id ↔ task ∈ tasks ∧ task.job = id := by
  simp [tasksOf]

namespace Account.Balanced

theorem tasksOf_eq (h : a.Balanced slots) (htask : task ∈ a.tasks) :
    tasksOf a.tasks task.job = [task] :=
  Keyed.filter_key (List.Nodup.of_append_left h.jobs_nodup) htask

theorem length_tasksOf_le (h : a.Balanced slots) (id : JobId) :
    (tasksOf a.tasks id).length ≤ 1 := by
  cases htasks : tasksOf a.tasks id with
  | nil => simp
  | cons task rest =>
    obtain ⟨htask, rfl⟩ := mem_tasksOf.mp (htasks ▸ List.mem_cons_self)
    rw [← htasks, h.tasksOf_eq htask]
    rfl

theorem tasksOf_without (h : a.Balanced slots) (htask : task ∈ a.tasks) (id : JobId) :
    tasksOf (without a.tasks task.ticket) id =
      if id = task.job then [] else tasksOf a.tasks id := by
  split
  · rename_i he
    subst he
    rw [tasksOf_eq_nil_iff]
    rintro other hother hjob
    obtain ⟨hother, hticket⟩ := mem_without.mp hother
    exact hticket (by rw [h.eq_of_job hother htask hjob])
  · rename_i hne
    simp only [tasksOf, without, List.filter_filter]
    apply List.filter_congr
    intro other hother
    by_cases hticket : other.ticket = task.ticket
    · obtain rfl := h.eq_of_ticket hother htask hticket
      simpa using fun he => hne he.symm
    · simp [hticket]

theorem tasksOf_staged (h : a.Balanced slots) (htask : task ∈ a.tasks) (stage : Stage)
    (id : JobId) : tasksOf (staged a.tasks task.ticket stage) id =
      if id = task.job then [{ task with stage := stage }] else tasksOf a.tasks id := by
  have hjobs : ∀ other : Task,
      (if other.ticket = task.ticket then { other with stage := stage } else other).job =
        other.job := by
    intro other
    split <;> rfl
  have hfilter : tasksOf (staged a.tasks task.ticket stage) id =
      (tasksOf a.tasks id).map fun other =>
        if other.ticket = task.ticket then { other with stage := stage } else other := by
    simp only [tasksOf, staged, List.filter_map, Function.comp_def, hjobs]
  rw [hfilter]
  split
  · rename_i he
    subst he
    simp [h.tasksOf_eq htask]
  · rename_i hne
    refine (List.map_congr_left fun other hother => ?_).trans (List.map_id _)
    obtain ⟨hother, hjob⟩ := mem_tasksOf.mp hother
    rw [if_neg fun hticket => hne ?_, id_eq]
    rw [← hjob, h.eq_of_ticket hother htask hticket]

end Account.Balanced

theorem reportsOf_append (reports : List AttemptRecord) (report : AttemptRecord) (id : JobId) :
    reportsOf (reports ++ [report]) id =
      if id = report.job then reportsOf reports id ++ [report] else reportsOf reports id := by
  split
  · rename_i he
    simp [reportsOf, he]
  · rename_i hne
    simp [reportsOf, Ne.symm hne]

end

variable {s : State} {l : Loans} {move : Move} {slots : Nat} {id other : JobId} {a : Annals}
  {ledger : Ledger} {queue : Queue} {registry : Registry} {calls : Option JobId}

-- What leaves everything about a job as it is, is nothing to it.
theorem Turn.unmoved (hledger : a.ledger.get? id = s.ledger.get? id)
    (hqueue : a.queue.entriesOf id = s.queue.entriesOf id)
    (htasks : tasksOf a.tasks id = tasksOf s.tasks id)
    (hregistry : a.registry.paths id = s.registry.paths id)
    (hreports : reportsOf a.reported id = reportsOf s.audit.reported id)
    (hevicted : a.evicted = s.evicted) : Turn s move id false (a.life id) := by
  simp only [Annals.life, hledger, hqueue, htasks, hregistry, hreports, hevicted]
  exact .still

-- A change to the record of one job is nothing to any other.
theorem Turn.of_touches (htouches : s.ledger.Touches other ledger)
    (hturn : id = other → Turn s move id false { s.life id with record := ledger.get? id }) :
    Turn s move id false (({ s.annals with ledger := ledger } : Annals).life id) := by
  by_cases he : id = other
  · exact hturn he
  · exact .unmoved (htouches.others id he) rfl rfl rfl rfl rfl

theorem Turn.of_rewrites {job next : Job} (hrewrites : s.ledger.Rewrites other job next ledger)
    (hturn : id = other → Turn s move id false { s.life id with record := some next }) :
    Turn s move id false (({ s.annals with ledger := ledger } : Annals).life id) := by
  refine .of_touches hrewrites.toTouches fun he => ?_
  rw [he, hrewrites.after, ← he]
  exact hturn he

theorem Turn.of_joined {next : Job} {priority : Int} (htouches : s.ledger.Touches other ledger)
    (hafter : ledger.get? other = some next) (hout : other ∉ s.queue.order)
    (hturn : id = other → Turn s move id false { s.life id with
      record := some next
      entries := [⟨id, priority, s.now, s.queue.issued⟩] }) :
    Turn s move id false (({ s.annals with
      ledger := ledger
      queue := s.queue.joined other priority s.now } : Annals).life id) := by
  by_cases he : id = other
  · subst he
    simp only [Annals.life, hafter, s.queue.entriesOf_joined _ _ hout, if_true]
    exact hturn rfl
  · refine .unmoved (htouches.others id he) ?_ rfl rfl rfl rfl
    simp only [s.queue.entriesOf_joined _ _ hout, if_neg he]

theorem Turn.of_without
    (hturn : id = other → Turn s move id false { s.life id with entries := [] }) :
    Turn s move id false (({ s.annals with queue := s.queue.without other } : Annals).life id) := by
  by_cases he : id = other
  · subst he
    simp only [Annals.life, Queue.entriesOf_without, if_true]
    exact hturn rfl
  · exact .unmoved rfl (by simp [Queue.entriesOf_without, he]) rfl rfl rfl rfl

-- However many jobs are dispatched, there is one attempt at each, and none if it was not queued.
theorem dispatches_cases (hapart : id ∈ s.queue.order → tasksOf s.tasks id = [])
    (h : Relation.ReflTransGen Annals.Dispatches s.annals a) :
    a.life id = s.life id ∨ (tasksOf s.tasks id = [] ∧ ∃ ticket, a.life id =
      { s.life id with entries := [], tasks := [⟨ticket, id, true, .starting⟩] }) := by
  induction h with
  | refl => exact .inl rfl
  | @tail b c _ hdispatches ih =>
    obtain ⟨ticket, hqueued⟩ := hdispatches
    rename_i job
    by_cases he : job = id
    · subst he
      rcases ih with hsame | ⟨-, ticket, hmoved⟩
      · have hentries : b.queue.entriesOf job = s.queue.entriesOf job := congrArg Life.entries hsame
        have hbefore : job ∈ s.queue.order := by
          by_contra hout
          rw [← Queue.entriesOf_eq_nil_iff, ← hentries, Queue.entriesOf_eq_nil_iff] at hout
          exact hout hqueued
        have hnone := hapart hbefore
        have htasks : tasksOf b.tasks job = [] := (congrArg Life.tasks hsame).trans hnone
        refine .inr ⟨hnone, ticket, ?_⟩
        rw [← hsame]
        simp [Annals.life, Queue.entriesOf_without, tasksOf, List.filter_append] at htasks ⊢
        exact htasks
      · have hentries : b.queue.entriesOf job = [] := congrArg Life.entries hmoved
        exact absurd hqueued (Queue.entriesOf_eq_nil_iff.mp hentries)
    · have hsame : ({ b with
          queue := b.queue.without job
          tasks := b.tasks ++ [⟨ticket, job, true, .starting⟩] } : Annals).life id = b.life id := by
        simp [Annals.life, Queue.entriesOf_without, tasksOf, List.filter_append, he, Ne.symm he]
      rw [hsame]
      exact ih

theorem State.Concludes.entriesOf {requeues : Bool} {job next : Job} {outcome : Outcome}
    {result : Except Failure Artifact}
    (hconcludes : s.Concludes requeues job result next queue outcome) (hne : id ≠ job.id)
    (hout : job.id ∉ s.queue.order) : queue.entriesOf id = s.queue.entriesOf id := by
  cases hconcludes with
  | retried _ _ _ => simp only [s.queue.entriesOf_joined _ _ hout, if_neg hne]
  | _ => rfl

theorem State.paths_claimsAfter (s : State) (hne : id ≠ other)
    (result : Except Failure Artifact) :
    (s.claimsAfter other result).paths id = s.registry.paths id := by
  cases result with
  | ok artifact => exact s.registry.paths_claim_of_ne _ hne
  | error cause => rfl

namespace Turn

theorem of_created (params : Params) (maxRetries : Nat) (hmove : move.names? = some other)
    (hfresh : s.ledger.get? other = none) :
    Turn s move id false (({ s.annals with
      ledger := (s.ledger.create other params maxRetries s.now).2 } : Annals).life id) := by
  obtain ⟨htouches, hafter⟩ := s.ledger.create_touches other params maxRetries s.now
  refine .of_touches htouches fun he => ?_
  subst he
  rw [hafter]
  exact .created params maxRetries hmove hfresh

theorem of_refused (hfresh : s.ledger.get? other = none) (htouches : s.ledger.Touches other ledger)
    (hnone : ledger.get? other = none) :
    Turn s move id false (({ s.annals with ledger := ledger } : Annals).life id) := by
  refine .of_touches htouches fun he => ?_
  subst he
  rw [hnone, ← hfresh]
  exact .still

theorem of_seized (hfree : ∀ task ∈ s.tasks, task.job ≠ other) :
    Turn s move id false (({ s.annals with
      queue := s.queue.without other
      tasks := s.tasks ++ [⟨s.issued, other, false, .starting⟩] } : Annals).life id) := by
  by_cases he : id = other
  · subst he
    have hnone : tasksOf s.tasks id = [] := tasksOf_eq_nil_iff.mpr hfree
    have htasks : tasksOf (s.tasks ++ [⟨s.issued, id, false, .starting⟩]) id =
        [⟨s.issued, id, false, .starting⟩] := by
      simp only [tasksOf, List.filter_append] at hnone ⊢
      simp [hnone]
    simp only [Annals.life, Queue.entriesOf_without, if_true, htasks]
    exact .admitted s.issued false hnone
  · refine .unmoved rfl ?_ ?_ rfl rfl rfl
    · simp only [Queue.entriesOf_without, if_neg he]
    · simp [tasksOf, List.filter_append, Ne.symm he]

theorem of_discarded {job : Job} (hmove : move = .withdrawJob other)
    (hqueued : other ∈ s.queue.order) (hjob : s.ledger.get? other = some job)
    (hpending : job.status = .pending) (htouches : s.ledger.Touches other ledger)
    (hnone : ledger.get? other = none) :
    Turn s move id false (({ s.annals with
      queue := s.queue.without other, ledger := ledger } : Annals).life id) := by
  by_cases he : id = other
  · subst he
    simp only [Annals.life, Queue.entriesOf_without, hnone, if_true]
    exact .discarded hmove (fun hnone => Queue.entriesOf_eq_nil_iff.mp hnone hqueued) hjob hpending
  · refine .unmoved (htouches.others id he) ?_ rfl rfl rfl rfl
    simp only [Queue.entriesOf_without, if_neg he]

section

variable {lent : List JobId} {task : Task} (h : (s.account lent).Balanced slots)

include h

theorem of_dispatches (hdispatches : Relation.ReflTransGen Annals.Dispatches s.annals a) :
    Turn s move id false (a.life id) := by
  have hfree : id ∈ s.queue.order → tasksOf s.tasks id = [] := by
    refine fun hqueued => tasksOf_eq_nil_iff.mpr ?_
    rintro task htask rfl
    exact h.apart task htask hqueued
  rcases dispatches_cases hfree hdispatches with hsame | ⟨hnone, ticket, hmoved⟩
  · rw [hsame]
    exact .still
  · rw [hmoved]
    exact .admitted ticket true hnone

theorem of_begun {job : Job} (htask : task ∈ s.tasks) (hstage : task.stage = .starting)
    (hready : job.status.canBecome .processing = true)
    (hrewrites : s.ledger.Rewrites task.job job (job.begun s.now) ledger) :
    Turn s move id (some task.job == some id) (({ s.annals with
      ledger := ledger
      tasks := Account.staged s.tasks task.ticket (.running (job.begun s.now))
      tally := s.tally.begin } : Annals).life id) := by
  have hstaged := h.tasksOf_staged htask (.running (job.begun s.now)) id
  simp only [State.account] at hstaged
  by_cases he : id = task.job
  · subst he
    simp only [Annals.life, hrewrites.after, hstaged, if_true, beq_self_eq_true]
    exact .begun (h.tasksOf_eq htask) hstage hrewrites.before hready
  · have hnot : (some task.job == some id) = false := by simpa using fun hsame => he hsame.symm
    rw [hnot]
    exact .unmoved (hrewrites.others id he) rfl (by simp only [hstaged, if_neg he]) rfl rfl rfl

theorem tasksOf_without (htask : task ∈ s.tasks) :
    tasksOf (Account.without s.tasks task.ticket) id =
      if id = task.job then [] else tasksOf s.tasks id := h.tasksOf_without htask id

theorem of_skipped (htask : task ∈ s.tasks) (hstage : task.stage = .starting)
    (hover : ∀ job, s.ledger.get? task.job = some job → job.status.isTerminal = true) :
    Turn s move id false (({ s.annals with
      tasks := Account.without s.tasks task.ticket
      tally := s.tally.begin.finish .skipped
      reported := s.audit.reported ++
        [⟨task.job, 0, .skipped, Span.zero, s.now⟩] } : Annals).life id) := by
  by_cases he : id = task.job
  · subst he
    simp only [Annals.life, tasksOf_without h htask, reportsOf_append, if_true]
    exact .skipped (h.tasksOf_eq htask) hstage hover
  · exact .unmoved rfl rfl (by simp only [tasksOf_without h htask, if_neg he]) rfl
      (by simp [reportsOf_append, he]) rfl

theorem of_ended {before job next : Job} {outcome : Outcome} {result : Except Failure Artifact}
    (htask : task ∈ s.tasks) (hstage : task.stage = .running before)
    (hstatus : job.status = .processing) (hout : task.job ∉ s.queue.order)
    (hconcludes : s.Concludes task.requeues job result next queue outcome)
    (hrewrites : s.ledger.Rewrites task.job job next ledger) :
    Turn s move id false (({ s.annals with
      ledger := ledger
      queue := queue
      registry := s.claimsAfter task.job result
      tasks := Account.without s.tasks task.ticket
      tally := s.tally.finish outcome
      reported := s.audit.reported ++
        [⟨task.job, job.retries + 1, outcome, Span.zero, s.now⟩] } : Annals).life id) := by
  by_cases he : id = task.job
  · subst he
    simp only [Annals.life, hrewrites.after, tasksOf_without h htask, reportsOf_append, if_true]
    exact .ended (h.tasksOf_eq htask) hstage hrewrites.before hstatus
      (Queue.entriesOf_eq_nil_iff.mpr hout) hconcludes
  · have hid : job.id = task.job := (Ledger.get?_mem hrewrites.before).2
    refine .unmoved (hrewrites.others id he) ?_
      (by simp only [tasksOf_without h htask, if_neg he]) ?_ (by simp [reportsOf_append, he]) rfl
    · exact hconcludes.entriesOf (hid ▸ he) (hid ▸ hout)
    · exact s.paths_claimsAfter he result

theorem of_evicted (ttl now : Nat) (files : Tree) :
    Turn s move id false (({ s.annals with
      ledger := (s.ledger.evict ttl now).2
      registry := s.registry.dropAll (s.ledger.evict ttl now).1
      evicted := s.evicted ++ (s.ledger.evict ttl now).1
      files := files } : Annals).life id) := by
  rcases s.ledger.evict_cases h.distinct ttl now id with
    ⟨hgone, hnone, job, hjob, hover⟩ | ⟨hstays, hsame⟩
  · have hevicted : (s.evicted ++ (s.ledger.evict ttl now).1).contains id = true := by
      simp [hgone]
    simp only [Annals.life, hnone, Registry.paths_dropAll, hgone, if_true, hevicted]
    exact .evicted hjob hover
  · have hevicted : (s.evicted ++ (s.ledger.evict ttl now).1).contains id =
        s.evicted.contains id := by
      simp [hstays]
    simp only [Annals.life, hsame, Registry.paths_dropAll, if_neg hstays, hevicted]
    exact .still

end

end Turn

theorem Annals.Writes.turn {lent : List JobId} (h : (s.account lent).Balanced slots)
    (hwrites : Writes s move calls a) (id : JobId) :
    Turn s move id (calls == some id) (a.life id) := by
  cases hwrites with
  | nothing => exact .still
  | created params maxRetries hmove hfresh => exact .of_created params maxRetries hmove hfresh
  | @submitted _ _ _ priority hmove hfresh htouches hjob hnew hout =>
    refine .of_joined htouches hjob hout fun he => ?_
    subst he
    exact .submitted hmove hfresh (Queue.entriesOf_eq_nil_iff.mpr hout) hnew priority
  | refused _ hfresh htouches hnone => exact .of_refused hfresh htouches hnone
  | prioritized priority hmove hpending hrewrites =>
    refine .of_rewrites hrewrites fun he => ?_
    subst he
    exact .prioritized priority hmove hrewrites.before hpending
  | queued priority hmove hpending hrewrites hout =>
    refine .of_joined hrewrites.toTouches hrewrites.after hout fun he => ?_
    subst he
    exact .queued priority hmove hrewrites.before hpending (Queue.entriesOf_eq_nil_iff.mpr hout)
  | taken hmove hqueued =>
    refine .of_without fun he => ?_
    subst he
    exact .taken hmove fun hnone => Queue.entriesOf_eq_nil_iff.mp hnone hqueued
  | dispatched hdispatches => exact .of_dispatches h hdispatches
  | seized hfree => exact .of_seized hfree
  | begun htask hstage hready hrewrites => exact .of_begun h htask hstage hready hrewrites
  | skipped _ htask hstage hover => exact .of_skipped h htask hstage hover
  | progressed percent hstatus hrewrites =>
    refine .of_rewrites hrewrites fun he => ?_
    subst he
    exact .progressed percent hrewrites.before hstatus
  | ended htask _ hstage hstatus hout hconcludes hrewrites =>
    exact .of_ended h htask hstage hstatus hout hconcludes hrewrites
  | @claimed other _ path hjob =>
    by_cases he : id = other
    · subst he
      exact .claimed path hjob
    · exact .unmoved rfl rfl rfl (s.registry.paths_claim_of_ne path he) rfl rfl
  | @released other hmove =>
    by_cases he : id = other
    · subst he
      simp only [Annals.life, Registry.paths_drop]
      exact .released hmove
    · exact .unmoved rfl rfl rfl (s.registry.paths_drop_of_ne he) rfl rfl
  | withdrawn hmove hqueued hrecord =>
    refine .of_without fun he => ?_
    subst he
    exact .withdrawn hmove (fun hnone => Queue.entriesOf_eq_nil_iff.mp hnone hqueued) hrecord
  | discarded hmove hqueued hjob hpending htouches hnone =>
    exact .of_discarded hmove hqueued hjob hpending htouches hnone
  | evicted ttl now _ => exact .of_evicted h ttl now _
  | swept files hmove => exact .still

theorem Loans.Regular.turn (h : l.Regular slots) (hfresh : l.state.NamesAfresh move) (id : JobId) :
    Turn l.state move id (l.state.calls? move == some id) ((l.make move).state.life id) :=
  (Annals.make_writes h hfresh).turn h.balanced id

end Foreman.Engine
