import Foreman.Ledger.InPlace
import Foreman.Proofs.Ledger.Frozen

namespace Foreman

namespace Draft

-- A record is rewritten if nothing speaks against it, and stays as it is otherwise.
def revised (f : Job → Except Fault Job) (job : Job) : Except Fault Job × Job :=
  match f job with
  | .error fault => (.error fault, job)
  | .ok next => (.ok next, next)

theorem check_perform (target : Status) (job : Job) :
    (check target).perform job =
      (if job.status.canBecome target then .ok ()
        else .error (.invalidTransition job.id job.status target), job) := by
  unfold check
  cases hcan : job.status.canBecome target <;> simp [hcan]

-- Each draft checks all that it has to check before it writes anything.

theorem checked_perform {target : Status} {writes : Draft Job} {change : Job → Job}
    (hwrites : ∀ job, writes.perform job =
      (.ok { change job with status := target }, { change job with status := target }))
    (job : Job) :
    (do check target; writes).perform job =
      revised (fun job => Ledger.allowed target job (change job)) job := by
  rw [perform_bind, check_perform, revised, Ledger.allowed]
  cases hcan : job.status.canBecome target with
  | true => exact hwrites job
  | false => rfl

theorem startAttempt_perform (now : Nat) (job : Job) :
    (startAttempt now).perform job = revised (fun job => Ledger.allowed .processing job
      { job with times := { job.times with started := some now }, position := none }) job := by
  unfold startAttempt
  exact checked_perform (fun _ => by rfl) job

theorem complete_perform (artifact : Artifact) (now : Nat) (job : Job) :
    (complete artifact now).perform job = revised (fun job => Ledger.allowed .completed job
      { job with
        progress := 100
        error := none
        result := some artifact
        times := { job.times with completed := some now } }) job := by
  unfold complete
  exact checked_perform (fun _ => by rfl) job

theorem retry_perform (id : JobId) (reason : String) (job : Job) :
    (retry id reason).perform job = revised (Ledger.retryOf id reason) job := by
  unfold retry revised Ledger.retryOf Ledger.allowed
  cases hcan : job.status.canBecome .retrying <;> cases hbudget : job.canRetry <;>
    simp [check_perform, hcan, hbudget]

theorem fail_perform (reason : String) (now : Nat) (job : Job) :
    (fail reason now).perform job = revised (fun job => Ledger.allowed .failed job
      { job with
        error := some reason
        times := { job.times with completed := some now } }) job := by
  unfold fail
  exact checked_perform (fun _ => by rfl) job

theorem setProgress_perform (percent : Nat) (job : Job) :
    (setProgress percent).perform job =
      if job.status.isTerminal then (.ok false, job)
      else (.ok true, { job with progress := min percent 100 }) := by
  unfold setProgress
  cases hover : job.status.isTerminal <;> simp [hover, Except.map]

end Draft

def Edit.act (id : JobId) : Edit → Act
  | .setPriority priority => .setPriority id priority
  | .startAttempt => .startAttempt id
  | .complete artifact => .complete id artifact
  | .retry reason => .retry id reason
  | .fail reason => .fail id reason
  | .setProgress percent => .setProgress id percent
  | .move target detail artifact => .move id target detail artifact
  | .discard => .discard id

namespace Ledger

variable {l : Ledger} {id other : JobId} {job : Job} {record record' : Option Job}

def Named (id : JobId) (record : Option Job) : Prop := ∀ job ∈ record, job.id = id

theorem named_get? (l : Ledger) (id : JobId) : Named id (l.get? id) :=
  fun _ hjob => (get?_mem hjob).2

-- The ledger with another record for a job, or with none.
def put (l : Ledger) (id : JobId) (record : Option Job) : Ledger :=
  ⟨l.jobs.filterMap fun job => if job.id = id then record else some job⟩

theorem put_some (l : Ledger) (id : JobId) (job : Job) :
    l.put id (some job) = l.update id fun _ => job := by
  rw [put, update, Ledger.mk.injEq, List.filterMap_eq_map_iff_forall_eq_some]
  intro found _
  split <;> rfl

theorem put_none (l : Ledger) (id : JobId) :
    l.put id none = ⟨l.jobs.filter fun other => other.id != id⟩ := by
  rw [put, ← List.filterMap_eq_filter]
  congr 2
  funext found
  by_cases he : found.id = id <;> simp [Option.guard, he]

theorem put_get? (h : l.Distinct) (id : JobId) : l.put id (l.get? id) = l := by
  have hsame : ∀ job ∈ l.jobs, (if job.id = id then l.get? id else some job) = some job := by
    intro job hjob
    split
    · rename_i he
      rw [← he, get?_of_mem h hjob]
    · rfl
  rw [put, List.filterMap_congr hsame, List.filterMap_some]

theorem id_of_mem_put (hrecord : Named id record) {found : Job}
    (hfound : found ∈ if job.id = id then record else some job) : found.id = job.id := by
  split at hfound
  · rename_i he
    rw [hrecord found hfound, he]
  · rw [Option.mem_some_iff.mp hfound]

theorem distinct_put (h : l.Distinct) (hrecord : Named id record) : (l.put id record).Distinct := by
  rw [Distinct, List.Nodup, List.pairwise_map] at h ⊢
  refine h.filterMap _ fun first second hne found hfound found' hfound' => ?_
  rw [id_of_mem_put hrecord hfound, id_of_mem_put hrecord hfound']
  exact hne

theorem get?_put_of_ne (hrecord : Named id record) (hne : other ≠ id) :
    (l.put id record).get? other = l.get? other := by
  have hsought : ∀ job ∈ l.jobs,
      Option.any (fun found => found.id == other) (if job.id = id then record else some job) =
        (job.id == other) := by
    intro job _
    split
    · rename_i he
      cases record with
      | none => simpa [he] using hne.symm
      | some next => simp [hrecord next rfl, he]
    · rfl
  rw [get?, put, List.find?_filterMap, List.find?_congr hsought]
  change (l.get? other).bind _ = l.get? other
  cases hjob : l.get? other with
  | none => rfl
  | some job => simp [(get?_mem hjob).2, hne]

theorem get?_put (hrecord : Named id record) (hjob : l.get? id = some job) :
    (l.put id record).get? id = record := by
  cases record with
  | none =>
    rw [put_none, get?, List.find?_eq_none]
    intro found hfound
    simpa using (List.mem_filter.mp hfound).2
  | some next =>
    rw [put_some]
    exact (rewrites_update (f := fun _ => next) hjob fun _ _ => hrecord next rfl).after

theorem put_comm (l : Ledger) (hne : id ≠ other) (hrecord : Named id record)
    (hrecord' : Named other record') :
    (l.put id record).put other record' = (l.put other record').put id record := by
  have hstays : ∀ {id other : JobId} {record record' : Option Job}, id ≠ other → Named id record →
      (record.bind fun job => if job.id = other then record' else some job) = record := by
    intro id other record record' hne hrecord
    cases record with
    | none => rfl
    | some job => simp [hrecord job rfl, hne]
  simp only [put, List.filterMap_filterMap]
  congr 2
  funext job
  by_cases hfirst : job.id = id
  · have hsecond : job.id ≠ other := fun he => hne (hfirst.symm.trans he)
    simp [hfirst, hne, hstays hne hrecord]
  · by_cases hsecond : job.id = other
    · simp [hsecond, hne.symm, hstays hne.symm hrecord']
    · simp [hfirst, hsecond]

-- What is answered when something is asked of one record, and what becomes of the record: it stays
-- as it is if the answer is no, and it is the job in the answer if there is one.
structure Faithful (id : JobId) (record : Option Job)
    (result : Except Fault Response × Option Job) : Prop where
  named : Named id result.2
  refused : ∀ fault, result.1 = .error fault → result.2 = record
  declined : result.1 = .ok (.flag false) → result.2 = record
  stored : ∀ job, result.1 = .ok (.job job) → record.isSome ∧ result.2 = some job

-- All that an operation looks at is the record of one job, and that is all that it changes.
def IsLocal (id : JobId) (op : Ledger → Except Fault Response × Ledger) : Prop :=
  ∃ respond : Option Job → Except Fault Response × Option Job,
    (∀ record, Named id record → Faithful id record (respond record)) ∧
    ∀ l, l.Distinct → op l = ((respond (l.get? id)).1, l.put id (respond (l.get? id)).2)

theorem faithful_error (hrecord : Named id record) (fault : Fault) :
    Faithful id record (.error fault, record) :=
  { named := hrecord
    refused := fun _ _ => rfl
    declined := by simp
    stored := by simp }

-- What is answered with is a flag, and all that is left to show is that false stands for no change.
theorem faithful_flag (hrecord : Named id record') {flag : Bool}
    (hdeclined : flag = false → record' = record) :
    Faithful id record (.ok (.flag flag), record') :=
  { named := hrecord
    refused := by simp
    declined := by simpa using hdeclined
    stored := by simp }

def FaithfulDraft (draft : Draft Response) : Prop :=
  ∀ job : Job, Faithful job.id (some job) ((draft.perform job).1, some (draft.perform job).2)

theorem faithful_revised {draft : Draft Job} {f : Job → Except Fault Job}
    (hdraft : ∀ job, draft.perform job = Draft.revised f job)
    (hid : ∀ job next, f job = .ok next → next.id = job.id) :
    FaithfulDraft (.job <$> draft) := by
  intro job
  rw [Draft.perform_map, hdraft, Draft.revised]
  cases hf : f job with
  | error fault => exact faithful_error (by simp [Named]) fault
  | ok next =>
    exact
      { named := by simp [Named, hid job next hf]
        refused := by simp [Except.map]
        declined := by simp [Except.map]
        stored := by simp [Except.map] }

-- The same operations, for those who look at the record of one job only.

def withRecord (id : JobId) (draft : Draft Response) :
    Option Job → Except Fault Response × Option Job
  | none => (.error (.notFound id), none)
  | some job => ((draft.perform job).1, some (draft.perform job).2)

def declineRecord (id : JobId) (target : Status) : Option Job → Except Fault Response × Option Job
  | none => (.error (.notFound id), none)
  | some job => (.error (.invalidTransition id job.status target), some job)

def discardRecord (record : Option Job) : Except Fault Response × Option Job :=
  if record.any (fun job => job.status = .pending) then (.ok (.flag true), none)
  else (.ok (.flag false), record)

theorem local_withJob {draft : Draft Response} (hdraft : FaithfulDraft draft) :
    IsLocal id fun l => l.withJob id draft := by
  refine ⟨withRecord id draft, ?_, ?_⟩
  · rintro (_ | job) hrecord
    · exact faithful_error hrecord _
    · obtain rfl := hrecord job rfl
      exact hdraft job
  · intro l h
    have hput := put_get? h id
    simp only [withJob]
    cases hjob : l.get? id with
    | none =>
      rw [hjob] at hput
      simp only [withRecord, hput]
    | some job => simp only [withRecord, put_some]

theorem local_decline (target : Status) : IsLocal id fun l => l.decline id target := by
  refine ⟨declineRecord id target, ?_, ?_⟩
  · rintro (_ | job) hrecord
    · exact faithful_error hrecord _
    · exact faithful_error hrecord _
  · intro l h
    have hput := put_get? h id
    simp only [decline]
    cases hjob : l.get? id <;> rw [hjob] at hput <;> simp only [declineRecord, hput]

theorem local_discard : IsLocal id fun l => l.discardInPlace id := by
  refine ⟨discardRecord, ?_, ?_⟩
  · intro record hrecord
    unfold discardRecord
    split
    · exact faithful_flag (by simp [Named]) (by simp)
    · exact faithful_flag hrecord fun _ => rfl
  · intro l h
    have hput := put_get? h id
    simp only [discardInPlace, removeIf]
    cases hjob : l.get? id with
    | none =>
      rw [hjob] at hput
      simp [discardRecord, hput]
    | some job =>
      rw [hjob] at hput
      by_cases hpending : job.status = .pending <;>
        simp [discardRecord, hpending, hput, put_none]

theorem allowed_id {target : Status} {change : Job → Job} (hid : ∀ job, (change job).id = job.id)
    (job next : Job) (h : allowed target job (change job) = .ok next) : next.id = job.id := by
  unfold allowed at h
  split at h
  · cases h
    exact hid job
  · cases h

theorem retryOf_id (id : JobId) (reason : String) (job next : Job)
    (h : retryOf id reason job = .ok next) : next.id = job.id := by
  rcases retryOf_cases id reason job with ⟨-, -, hok⟩ | ⟨-, fault, hfault⟩
  · cases h.symm.trans hok
    rfl
  · cases h.symm.trans hfault

theorem faithful_setPriority (priority : Int) :
    FaithfulDraft ((fun _ => .done) <$> Draft.setPriority priority) := by
  intro job
  rw [Draft.perform_map, Draft.setPriority, Draft.perform_modify]
  exact
    { named := by simp [Named]
      refused := by simp [Except.map]
      declined := by simp [Except.map]
      stored := by simp [Except.map] }

theorem faithful_setProgress (percent : Nat) :
    FaithfulDraft (.flag <$> Draft.setProgress percent) := by
  intro job
  rw [Draft.perform_map, Draft.setProgress_perform]
  split
  · exact faithful_flag (by simp [Named]) fun _ => rfl
  · exact faithful_flag (by simp [Named]) (by simp)

section

variable (id : JobId) (now : Nat)

theorem startAttempt_local : IsLocal id fun l => l.amend id now .startAttempt := by
  have hdraft := faithful_revised (Draft.startAttempt_perform now) (allowed_id fun _ => rfl)
  exact local_withJob hdraft

theorem complete_local (artifact : Artifact) :
    IsLocal id fun l => l.amend id now (.complete artifact) := by
  have hdraft := faithful_revised (Draft.complete_perform artifact now) (allowed_id fun _ => rfl)
  exact local_withJob hdraft

theorem retry_local (reason : String) :
    IsLocal id fun l => l.amend id now (.retry reason) := by
  have hdraft := faithful_revised (Draft.retry_perform id reason) (retryOf_id id reason)
  exact local_withJob hdraft

theorem fail_local (reason : String) : IsLocal id fun l => l.amend id now (.fail reason) := by
  have hdraft := faithful_revised (Draft.fail_perform reason now) (allowed_id fun _ => rfl)
  exact local_withJob hdraft

theorem move_local (target : Status) (detail : Option String) (artifact : Option Artifact) :
    IsLocal id fun l => l.amend id now (.move target detail artifact) := by
  cases target with
  | pending => exact local_decline .pending
  | processing => exact startAttempt_local id now
  | retrying => exact retry_local id now (detail.getD "")
  | completed => cases artifact with
    | none => exact local_decline .completed
    | some artifact => exact complete_local id now artifact
  | failed => exact fail_local id now (detail.getD "")

theorem amend_local (edit : Edit) : IsLocal id fun l => l.amend id now edit := by
  cases edit with
  | setPriority priority => exact local_withJob (faithful_setPriority priority)
  | startAttempt => exact startAttempt_local id now
  | complete artifact => exact complete_local id now artifact
  | retry reason => exact retry_local id now reason
  | fail reason => exact fail_local id now reason
  | setProgress percent => exact local_withJob (faithful_setProgress percent)
  | move target detail artifact => exact move_local id now target detail artifact
  | discard => exact local_discard

end

namespace IsLocal

variable {op op' : Ledger → Except Fault Response × Ledger}

-- What becomes of the record decides what becomes of the ledger.
theorem exists_record (hop : IsLocal id op) (h : l.Distinct) :
    ∃ record, Faithful id (l.get? id) ((op l).1, record) ∧ (op l).2 = l.put id record := by
  obtain ⟨respond, hrespond, heq⟩ := hop
  rw [heq l h]
  exact ⟨_, hrespond _ (named_get? l id), rfl⟩

theorem unchanged_of_error (hop : IsLocal id op) (h : l.Distinct) {fault : Fault}
    (hrefused : (op l).1 = .error fault) : (op l).2 = l := by
  obtain ⟨record, hfaithful, hput⟩ := hop.exists_record h
  have hsame : record = l.get? id := hfaithful.refused fault hrefused
  rw [hput, hsame, put_get? h id]

theorem unchanged_of_declined (hop : IsLocal id op) (h : l.Distinct)
    (hdeclined : (op l).1 = .ok (.flag false)) : (op l).2 = l := by
  obtain ⟨record, hfaithful, hput⟩ := hop.exists_record h
  have hsame : record = l.get? id := hfaithful.declined hdeclined
  rw [hput, hsame, put_get? h id]

theorem others (hop : IsLocal id op) (h : l.Distinct) (hne : other ≠ id) :
    (op l).2.get? other = l.get? other := by
  obtain ⟨record, hfaithful, hput⟩ := hop.exists_record h
  rw [hput]
  exact get?_put_of_ne hfaithful.named hne

theorem stored (hop : IsLocal id op) (h : l.Distinct) (hanswer : (op l).1 = .ok (.job job)) :
    (op l).2.get? id = some job := by
  obtain ⟨record, hfaithful, hput⟩ := hop.exists_record h
  obtain ⟨hknown, rfl⟩ := hfaithful.stored job hanswer
  obtain ⟨before, hbefore⟩ := Option.isSome_iff_exists.mp hknown
  rw [hput]
  exact get?_put hfaithful.named hbefore

-- Two operations on different jobs, in either order.
theorem commute (hop : IsLocal id op) (hop' : IsLocal other op') (hne : other ≠ id)
    (h : l.Distinct) :
    (op' (op l).2).1 = (op' l).1 ∧ (op (op' l).2).1 = (op l).1 ∧
      (op' (op l).2).2 = (op (op' l).2).2 := by
  obtain ⟨respond, hrespond, heq⟩ := hop
  obtain ⟨respond', hrespond', heq'⟩ := hop'
  have hnamed := (hrespond _ (named_get? l id)).named
  have hnamed' := (hrespond' _ (named_get? l other)).named
  have hsecond : (l.put id (respond (l.get? id)).2).get? other = l.get? other :=
    get?_put_of_ne hnamed hne
  have hfirst : (l.put other (respond' (l.get? other)).2).get? id = l.get? id :=
    get?_put_of_ne hnamed' hne.symm
  simp only [heq l h, heq' l h, heq' _ (distinct_put h hnamed), heq _ (distinct_put h hnamed'),
    hsecond, hfirst]
  exact ⟨trivial, trivial, put_comm l hne.symm hnamed hnamed'⟩

end IsLocal

-- What is answered by the operations as they are defined on the ledger as a whole.
def answered (l : Ledger) (id : JobId) (now : Nat) : Edit → Except Fault Response
  | .setPriority priority => (l.setPriority id priority).map fun _ => .done
  | .startAttempt => (l.startAttempt id now).map fun result => .job result.1
  | .complete artifact => (l.complete id artifact now).map fun result => .job result.1
  | .retry reason => (l.retry id reason).map fun result => .job result.1
  | .fail reason => (l.fail id reason now).map fun result => .job result.1
  | .setProgress percent => (l.setProgress id percent).map fun result => .flag result.1
  | .move target detail artifact =>
    (l.move id target detail artifact now).map fun result => .job result.1
  | .discard => .ok (.flag (l.discard id).isSome)

variable (h : l.Distinct)

include h

theorem withJob_of_revised {draft : Draft Job} {f : Job → Except Fault Job}
    (hdraft : ∀ job, draft.perform job = Draft.revised f job) (id : JobId) :
    l.withJob id (Response.job <$> draft) =
      ((l.revise id f).map fun result => .job result.1, l.settled (l.revise id f)) := by
  unfold withJob revise
  cases hjob : l.get? id with
  | none => rfl
  | some job =>
    simp only [Draft.perform_map, hdraft, Draft.revised]
    cases hf : f job with
    | ok next => rfl
    | error fault =>
      have hsame := put_get? h id
      rw [hjob, put_some] at hsame
      simp only [hsame, settled, Except.map]

theorem startAttempt_performs (id : JobId) (now : Nat) :
    l.amend id now .startAttempt =
      (l.answered id now .startAttempt, l.act now (.startAttempt id)) :=
  withJob_of_revised h (Draft.startAttempt_perform now) id

theorem complete_performs (id : JobId) (now : Nat) (artifact : Artifact) :
    l.amend id now (.complete artifact) =
      (l.answered id now (.complete artifact), l.act now (.complete id artifact)) :=
  withJob_of_revised h (Draft.complete_perform artifact now) id

theorem retry_performs (id : JobId) (now : Nat) (reason : String) :
    l.amend id now (.retry reason) =
      (l.answered id now (.retry reason), l.act now (.retry id reason)) :=
  withJob_of_revised h (Draft.retry_perform id reason) id

theorem fail_performs (id : JobId) (now : Nat) (reason : String) :
    l.amend id now (.fail reason) =
      (l.answered id now (.fail reason), l.act now (.fail id reason)) :=
  withJob_of_revised h (Draft.fail_perform reason now) id

theorem update_eq_of_get? (hjob : l.get? id = some job) (f : Job → Job) :
    l.update id f = l.update id fun _ => f job := by
  obtain ⟨hmem, rfl⟩ := get?_mem hjob
  rw [update, update, Ledger.mk.injEq]
  refine List.map_congr_left fun found hfound => ?_
  split
  · rename_i he
    rw [List.inj_on_of_nodup_map h hfound hmem he]
  · rfl

theorem setProgress_performs (id : JobId) (now percent : Nat) :
    l.amend id now (.setProgress percent) =
      (l.answered id now (.setProgress percent), l.act now (.setProgress id percent)) := by
  simp only [amend, answered, act, withJob, setProgress, Draft.perform_map,
    Draft.setProgress_perform]
  cases hjob : l.get? id with
  | none => rfl
  | some job =>
    have hsame := put_get? h id
    rw [hjob, put_some] at hsame
    cases hover : job.status.isTerminal with
    | true => simp [hover, hsame, settled, Except.map]
    | false =>
      simp [hover, settled, Except.map,
        update_eq_of_get? h hjob fun job => { job with progress := min percent 100 }]

omit h in
theorem decline_performs (id : JobId) (now : Nat) {target : Status} {detail : Option String}
    {artifact : Option Artifact} (hnot : Draft.move? id now detail artifact target = none) :
    l.amend id now (.move target detail artifact) =
      (l.answered id now (.move target detail artifact),
        l.act now (.move id target detail artifact)) := by
  simp only [amend, hnot, answered, act, decline]
  cases target with
  | pending => cases hjob : l.get? id <;> simp [move, hjob, settled, Except.map]
  | completed => cases artifact with
    | none => cases hjob : l.get? id <;> simp [move, hjob, settled, Except.map]
    | some artifact => cases hnot
  | _ => cases hnot

theorem move_performs (id : JobId) (now : Nat) (target : Status) (detail : Option String)
    (artifact : Option Artifact) :
    l.amend id now (.move target detail artifact) =
      (l.answered id now (.move target detail artifact),
        l.act now (.move id target detail artifact)) := by
  cases target with
  | pending => exact decline_performs id now rfl
  | processing => exact startAttempt_performs h id now
  | retrying => exact retry_performs h id now (detail.getD "")
  | completed => cases artifact with
    | none => exact decline_performs id now rfl
    | some artifact => exact complete_performs h id now artifact
  | failed => exact fail_performs h id now (detail.getD "")

-- Step by step or all at once, an operation answers the same and leaves the same ledger behind.
theorem amend_performs (id : JobId) (now : Nat) (edit : Edit) :
    l.amend id now edit = (l.answered id now edit, l.act now (edit.act id)) := by
  cases edit with
  | setPriority priority =>
    simp only [amend, answered, Edit.act, act, withJob, setPriority, revise, Draft.perform_map]
    cases l.get? id <;> rfl
  | startAttempt => exact startAttempt_performs h id now
  | complete artifact => exact complete_performs h id now artifact
  | retry reason => exact retry_performs h id now reason
  | fail reason => exact fail_performs h id now reason
  | setProgress percent => exact setProgress_performs h id now percent
  | move target detail artifact => exact move_performs h id now target detail artifact
  | discard =>
    simp only [amend, answered, Edit.act, act, discardInPlace, removeIf, discard]
    cases l.get? id with
    | none => rfl
    | some job => by_cases hpending : job.status = .pending <;> simp [hpending]

end Ledger

-- What is promised for one job. An operation on its record that is turned down changes nothing at
-- all, and any other changes this record only, and answers with what it has made of it. A move that
-- is asked for by its target is the move of that name, if there is one. It makes no difference
-- which of two operations on different jobs comes first.
structure AmendsLocally (l : Ledger) (id : JobId) (now : Nat) : Prop where
  refused : ∀ edit fault, (l.amend id now edit).1 = .error fault → (l.amend id now edit).2 = l
  declined : ∀ edit, (l.amend id now edit).1 = .ok (.flag false) → (l.amend id now edit).2 = l
  others : ∀ edit other, other ≠ id → (l.amend id now edit).2.get? other = l.get? other
  stored : ∀ edit job, (l.amend id now edit).1 = .ok (.job job) →
    (l.amend id now edit).2.get? id = some job
  toPending : ∀ detail artifact, ∃ fault,
    (l.amend id now (.move .pending detail artifact)).1 = .error fault
  toProcessing : ∀ detail artifact,
    l.amend id now (.move .processing detail artifact) = l.amend id now .startAttempt
  toRetrying : ∀ detail artifact,
    l.amend id now (.move .retrying detail artifact) = l.amend id now (.retry (detail.getD ""))
  toCompleted : ∀ detail artifact,
    l.amend id now (.move .completed detail (some artifact)) = l.amend id now (.complete artifact)
  toCompletedEmpty : ∀ detail, ∃ fault,
    (l.amend id now (.move .completed detail none)).1 = .error fault
  toFailed : ∀ detail artifact,
    l.amend id now (.move .failed detail artifact) = l.amend id now (.fail (detail.getD ""))
  commutes : ∀ edit other edit', other ≠ id →
    ((l.amend id now edit).2.amend other now edit').1 = (l.amend other now edit').1 ∧
      ((l.amend other now edit').2.amend id now edit).1 = (l.amend id now edit).1 ∧
      ((l.amend id now edit).2.amend other now edit').2 =
        ((l.amend other now edit').2.amend id now edit).2
  performs : ∀ edit, l.amend id now edit = (l.answered id now edit, l.act now (edit.act id))

theorem Ledger.exists_decline (l : Ledger) (id : JobId) (target : Status) :
    ∃ fault, (l.decline id target).1 = .error fault := by
  unfold decline
  cases l.get? id with
  | none => exact ⟨_, rfl⟩
  | some job => exact ⟨_, rfl⟩

theorem amendsLocally_of_deeds (deeds : List Deed) (id : JobId) (now : Nat) :
    AmendsLocally (Ledger.empty.after deeds) id now := by
  have h := Ledger.distinct_after Ledger.distinct_empty deeds
  have hlocal := Ledger.amend_local id now
  exact
    { refused := fun edit _ hrefused => (hlocal edit).unchanged_of_error h hrefused
      declined := fun edit hdeclined => (hlocal edit).unchanged_of_declined h hdeclined
      others := fun edit _ hne => (hlocal edit).others h hne
      stored := fun edit _ hanswer => (hlocal edit).stored h hanswer
      toPending := fun _ _ => Ledger.exists_decline _ id .pending
      toProcessing := fun _ _ => rfl
      toRetrying := fun _ _ => rfl
      toCompleted := fun _ _ => rfl
      toCompletedEmpty := fun _ => Ledger.exists_decline _ id .completed
      toFailed := fun _ _ => rfl
      commutes := fun edit other edit' hne =>
        (hlocal edit).commute (Ledger.amend_local other now edit') hne h
      performs := Ledger.amend_performs h id now }

end Foreman
