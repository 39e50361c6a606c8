import Foreman.Ledger.Life
import Foreman.Proofs.Keyed
import Mathlib.Data.List.Find

namespace Foreman

namespace Job

-- What the four moves in the life of a job make of its record.

def begun (job : Job) (now : Nat) : Job :=
  { job with
    status := .processing
    times := { job.times with started := some now }
    position := none }

def completedWith (job : Job) (artifact : Artifact) (now : Nat) : Job :=
  { job with
    status := .completed
    progress := 100
    error := none
    result := some artifact
    times := { job.times with completed := some now } }

def retriedAfter (job : Job) (reason : String) : Job :=
  { job with status := .retrying, retries := job.retries + 1, error := some reason }

def failedWith (job : Job) (reason : String) (now : Nat) : Job :=
  { job with
    status := .failed
    error := some reason
    times := { job.times with completed := some now } }

end Job

namespace Ledger

variable {l l' : Ledger} {id other : JobId} {job next : Job} {now : Nat}

def Distinct (l : Ledger) : Prop := (l.jobs.map Job.id).Nodup

theorem get?_mem (h : l.get? id = some job) : job ∈ l.jobs ∧ job.id = id := by
  refine ⟨List.mem_of_find?_eq_some h, ?_⟩
  simpa using List.find?_some h

theorem get?_of_mem (h : l.Distinct) (hjob : job ∈ l.jobs) : l.get? job.id = some job :=
  Keyed.find?_key h hjob

-- What is true of the record of a job is true of whatever is found under its name.
theorem forall_get? {p : Job → Prop} (hjob : l.get? id = some job) (hp : p job) :
    ∀ found, l.get? id = some found → p found := by
  intro found hfound
  obtain rfl := Option.some_inj.mp (hjob.symm.trans hfound)
  exact hp

theorem contains_eq_false_iff : l.contains id = false ↔ l.get? id = none := by
  rw [contains_eq_isSome]
  cases l.get? id <;> simp

structure Touches (l : Ledger) (id : JobId) (l' : Ledger) : Prop where
  others : ∀ other, other ≠ id → l'.get? other = l.get? other
  distinct : l.Distinct → l'.Distinct

structure Rewrites (l : Ledger) (id : JobId) (job next : Job) (l' : Ledger) : Prop
    extends Touches l id l' where
  before : l.get? id = some job
  after : l'.get? id = some next

theorem Touches.refl (l : Ledger) (id : JobId) : l.Touches id l := ⟨fun _ _ => rfl, fun h => h⟩

theorem Touches.trans {l'' : Ledger} (h : l.Touches id l') (h' : l'.Touches id l'') :
    l.Touches id l'' where
  others := fun other hne => (h'.others other hne).trans (h.others other hne)
  distinct := fun hdistinct => h'.distinct (h.distinct hdistinct)

theorem Rewrites.eq_before (h : l.Rewrites id job next l') {found : Job}
    (hfound : l.get? id = some found) : job = found :=
  Option.some_inj.mp (h.before.symm.trans hfound)

theorem Rewrites.eq_after (h : l.Rewrites id job next l') {found : Job}
    (hfound : l'.get? id = some found) : next = found :=
  Option.some_inj.mp (h.after.symm.trans hfound)

theorem Rewrites.trans {l'' : Ledger} {last : Job} (h : l.Rewrites id job next l')
    (h' : l'.Rewrites id next last l'') : l.Rewrites id job last l'' where
  toTouches := h.toTouches.trans h'.toTouches
  before := h.before
  after := h'.after

theorem rewrites_update (hjob : l.get? id = some job) {f : Job → Job}
    (hid : ∀ job, job.id = id → (f job).id = id) : l.Rewrites id job (f job) (l.update id f) := by
  have hkey : ∀ job : Job, (if job.id = id then f job else job).id = job.id := by
    intro job
    split
    · rename_i he
      rw [hid job he, he]
    · rfl
  have hget : ∀ other, (l.update id f).get? other =
      (l.get? other).map (fun job => if job.id = id then f job else job) := by
    intro other
    simp only [get?, update, List.find?_map, Function.comp_def, hkey]
  refine ⟨⟨?_, ?_⟩, hjob, by rw [hget, hjob, Option.map_some, if_pos (get?_mem hjob).2]⟩
  · intro other hne
    rw [hget]
    cases hother : l.get? other with
    | none => rfl
    | some found =>
      rw [Option.map_some, if_neg]
      rw [(get?_mem hother).2]
      exact hne
  · intro hdistinct
    simpa only [Distinct, update, List.map_map, Function.comp_def, hkey] using hdistinct

theorem revise_cases (l : Ledger) (id : JobId) (f : Job → Except Fault Job)
    (hid : ∀ job next, f job = .ok next → next.id = job.id) :
    (∃ job next, f job = .ok next ∧ l.revise id f = .ok (next, l.update id (fun _ => next)) ∧
      l.Rewrites id job next (l.update id (fun _ => next))) ∨
    (∃ fault, l.revise id f = .error fault ∧
      ∀ job, l.get? id = some job → f job = .error fault) := by
  unfold revise
  cases hjob : l.get? id with
  | none => exact .inr ⟨_, rfl, by simp⟩
  | some job =>
    cases hf : f job with
    | error fault =>
      refine .inr ⟨fault, by simp [hf], ?_⟩
      intro job' hjob'
      obtain rfl := Option.some_inj.mp hjob'
      exact hf
    | ok next =>
      refine .inl ⟨job, next, hf, by simp [hf], ?_⟩
      have hnext : next.id = id := (hid job next hf).trans (get?_mem hjob).2
      exact rewrites_update hjob (fun _ _ => hnext)

-- A move in the life of a job is made if it is allowed, and is turned down otherwise.
theorem move_cases (l : Ledger) (id : JobId) (target : Status) (change : Job → Job)
    (hid : ∀ job, (change job).id = job.id) :
    (∃ job l', job.status.canBecome target = true ∧
      l.revise id (fun job => allowed target job (change job)) =
        .ok ({ change job with status := target }, l') ∧
      l.Rewrites id job { change job with status := target } l') ∨
    (∃ fault, l.revise id (fun job => allowed target job (change job)) = .error fault ∧
      ∀ job, l.get? id = some job → job.status.canBecome target = false) := by
  have hallowed : ∀ job next, allowed target job (change job) = .ok next →
      job.status.canBecome target = true ∧ next = { change job with status := target } := by
    intro job next h
    unfold allowed at h
    split at h
    · rename_i hcan
      exact ⟨hcan, (Except.ok.inj h).symm⟩
    · cases h
  rcases revise_cases l id (fun job => allowed target job (change job))
      (fun job next h => (hallowed job next h).2 ▸ hid job) with
    ⟨job, next, hnext, hrevise, hrewrites⟩ | ⟨fault, hrevise, hfault⟩
  · obtain ⟨hcan, rfl⟩ := hallowed job next hnext
    exact .inl ⟨job, _, hcan, hrevise, hrewrites⟩
  · refine .inr ⟨fault, hrevise, fun job hjob => ?_⟩
    have hrefused := hfault job hjob
    unfold allowed at hrefused
    split at hrefused
    · cases hrefused
    · rename_i hcan
      simpa using hcan

theorem startAttempt_cases (l : Ledger) (id : JobId) (now : Nat) :
    (∃ job l', job.status.canBecome .processing = true ∧
      l.startAttempt id now = .ok (job.begun now, l') ∧ l.Rewrites id job (job.begun now) l') ∨
    (∃ fault, l.startAttempt id now = .error fault ∧
      ∀ job, l.get? id = some job → job.status.canBecome .processing = false) :=
  l.move_cases id .processing _ (fun _ => rfl)

theorem complete_cases (l : Ledger) (id : JobId) (artifact : Artifact) (now : Nat) :
    (∃ job l', job.status.canBecome .completed = true ∧
      l.complete id artifact now = .ok (job.completedWith artifact now, l') ∧
      l.Rewrites id job (job.completedWith artifact now) l') ∨
    (∃ fault, l.complete id artifact now = .error fault ∧
      ∀ job, l.get? id = some job → job.status.canBecome .completed = false) :=
  l.move_cases id .completed _ (fun _ => rfl)

theorem fail_cases (l : Ledger) (id : JobId) (reason : String) (now : Nat) :
    (∃ job l', job.status.canBecome .failed = true ∧
      l.fail id reason now = .ok (job.failedWith reason now, l') ∧
      l.Rewrites id job (job.failedWith reason now) l') ∨
    (∃ fault, l.fail id reason now = .error fault ∧
      ∀ job, l.get? id = some job → job.status.canBecome .failed = false) :=
  l.move_cases id .failed _ (fun _ => rfl)

def retryOf (id : JobId) (reason : String) (job : Job) : Except Fault Job :=
  match allowed .retrying job { job with retries := job.retries + 1, error := some reason } with
  | .error fault => .error fault
  | .ok next => if job.canRetry then .ok next else .error (.budgetExhausted id job.maxRetries)

theorem retryOf_cases (id : JobId) (reason : String) (job : Job) :
    (job.status.canBecome .retrying = true ∧ job.canRetry = true ∧
      retryOf id reason job = .ok (job.retriedAfter reason)) ∨
    ((job.status.canBecome .retrying = false ∨ job.canRetry = false) ∧
      ∃ fault, retryOf id reason job = .error fault) := by
  simp only [retryOf, allowed, Job.retriedAfter]
  cases hcan : job.status.canBecome .retrying with
  | false => exact .inr ⟨.inl rfl, _, rfl⟩
  | true =>
    cases hbudget : job.canRetry with
    | false => exact .inr ⟨.inr rfl, _, rfl⟩
    | true => exact .inl ⟨rfl, rfl, rfl⟩

theorem retry_cases (l : Ledger) (id : JobId) (reason : String) :
    (∃ job l', job.status.canBecome .retrying = true ∧ job.canRetry = true ∧
      l.retry id reason = .ok (job.retriedAfter reason, l') ∧
      l.Rewrites id job (job.retriedAfter reason) l') ∨
    (∃ fault, l.retry id reason = .error fault ∧
      ∀ job, l.get? id = some job →
        job.status.canBecome .retrying = false ∨ job.canRetry = false) := by
  have hretry : l.retry id reason = l.revise id (retryOf id reason) := rfl
  have hid : ∀ job next, retryOf id reason job = .ok next → next.id = job.id := by
    intro job next hnext
    rcases retryOf_cases id reason job with ⟨-, -, hok⟩ | ⟨-, fault, hfault⟩
    · obtain rfl := Except.ok.inj (hnext.symm.trans hok)
      rfl
    · rw [hfault] at hnext
      cases hnext
  rw [hretry]
  rcases revise_cases l id (retryOf id reason) hid with
    ⟨job, next, hnext, hok, hrewrites⟩ | ⟨fault, herror, hall⟩
  · rcases retryOf_cases id reason job with ⟨hcan, hbudget, hdone⟩ | ⟨-, fault, hfault⟩
    · obtain rfl := Except.ok.inj (hnext.symm.trans hdone)
      exact .inl ⟨job, _, hcan, hbudget, hok, hrewrites⟩
    · rw [hfault] at hnext
      cases hnext
  · refine .inr ⟨fault, herror, fun job hjob => ?_⟩
    rcases retryOf_cases id reason job with ⟨-, -, hdone⟩ | ⟨hnot, -⟩
    · rw [hall job hjob] at hdone
      cases hdone
    · exact hnot

theorem setPriority_cases (l : Ledger) (id : JobId) (priority : Int) :
    (∃ job l', l.setPriority id priority = .ok ({ job with priority := some priority }, l') ∧
      l.Rewrites id job { job with priority := some priority } l') ∨
    (∃ fault, l.setPriority id priority = .error fault ∧ l.get? id = none) := by
  rcases revise_cases l id (fun job => .ok { job with priority := some priority })
      (fun job next h => Except.ok.inj h ▸ rfl) with
    ⟨job, next, hnext, hok, hrewrites⟩ | ⟨fault, herror, hall⟩
  · obtain rfl := Except.ok.inj hnext
    exact .inl ⟨job, _, hok, hrewrites⟩
  · refine .inr ⟨fault, herror, ?_⟩
    cases hjob : l.get? id with
    | none => rfl
    | some job => exact absurd (hall job hjob) (by simp)

theorem setProgress_cases (l : Ledger) (id : JobId) (percent : Nat) :
    (∃ job l', job.status.isTerminal = false ∧ l.setProgress id percent = .ok (true, l') ∧
      l.Rewrites id job { job with progress := min percent 100 } l') ∨
    l.setProgress id percent = .ok (false, l) ∨
    (∃ fault, l.setProgress id percent = .error fault) := by
  unfold setProgress
  cases hjob : l.get? id with
  | none => exact .inr (.inr ⟨_, rfl⟩)
  | some job =>
    cases hover : job.status.isTerminal with
    | true => exact .inr (.inl (by simp [hover]))
    | false =>
      refine .inl ⟨job, l.update id (fun job => { job with progress := min percent 100 }), hover,
        by simp [hover], ?_⟩
      exact rewrites_update (f := fun job => { job with progress := min percent 100 }) hjob
        (fun _ h => h)

theorem get?_filter (keep : Job → Bool) (h : ∀ job ∈ l.jobs, job.id = id → keep job = true) :
    (⟨l.jobs.filter keep⟩ : Ledger).get? id = l.get? id := by
  simp only [get?]
  rw [List.find?_filter]
  apply List.find?_congr
  intro job hjob
  by_cases he : job.id = id
  · simp [he, h job hjob he]
  · simp [he]

-- A new record takes the place of any that has its name, and no other is touched.
theorem create_touches (l : Ledger) (id : JobId) (params : Params) (maxRetries now : Nat) :
    l.Touches id (l.create id params maxRetries now).2 ∧
      (l.create id params maxRetries now).2.get? id =
        some (Job.fresh id params maxRetries now) := by
  refine ⟨⟨?_, ?_⟩, ?_⟩
  · intro other hne
    have hlast : ((Job.fresh id params maxRetries now).id == other) = false := by
      simpa [Job.fresh] using hne.symm
    have hkept : (⟨l.jobs.filter (fun job => job.id != id)⟩ : Ledger).get? other = l.get? other :=
      get?_filter _ fun job _ he => by simpa [he] using hne
    simp only [get?] at hkept
    simp [create, get?, List.find?_append, hkept, hlast]
  · intro h
    simp only [create, Distinct, List.map_append, List.map_cons, List.map_nil]
    refine List.nodup_append.mpr
      ⟨h.sublist (List.filter_sublist.map _), List.nodup_singleton _, ?_⟩
    intro a ha b hb
    obtain ⟨job, hjob, rfl⟩ := List.mem_map.mp ha
    rw [List.mem_singleton.mp hb]
    simpa [Job.fresh] using (List.mem_filter.mp hjob).2
  · have hnone : (l.jobs.filter (fun job => job.id != id)).find? (fun job => job.id == id) =
        none := by
      rw [List.find?_eq_none]
      intro job hjob
      simpa using (List.mem_filter.mp hjob).2
    simp [create, get?, List.find?_append, hnone, Job.fresh]

theorem discard_cases (l : Ledger) (id : JobId) :
    (∃ job l', l.get? id = some job ∧ job.status = .pending ∧ l.discard id = some l' ∧
      l.Touches id l' ∧ l'.get? id = none) ∨
    (l.discard id = none ∧ ∀ job, l.get? id = some job → job.status ≠ .pending) := by
  unfold discard
  cases hjob : l.get? id with
  | none => exact .inr ⟨rfl, by simp⟩
  | some job =>
    by_cases hpending : job.status = .pending
    · refine .inl ⟨job, ⟨l.jobs.filter (fun other => other.id != id)⟩, rfl, hpending,
        by simp [hpending], ⟨?_, ?_⟩, ?_⟩
      · intro other hne
        exact get?_filter _ fun job _ he => by simpa [he] using hne
      · exact fun h => h.sublist (List.filter_sublist.map _)
      · simp only [get?]
        rw [List.find?_eq_none]
        intro other hother
        simpa using (List.mem_filter.mp hother).2
    · refine .inr ⟨by simp [hpending], fun job' hjob' => ?_⟩
      obtain rfl := Option.some_inj.mp hjob'
      exact hpending

theorem isExpired_eq_false {cutoff : Nat} (h : job.status.isTerminal = false) :
    isExpired cutoff job = false := by
  simp [isExpired, h]

-- A job that leaves by eviction is over, and any other keeps its record.
theorem evict_cases (h : l.Distinct) (ttl now : Nat) (id : JobId) :
    (id ∈ (l.evict ttl now).1 ∧ (l.evict ttl now).2.get? id = none ∧
      ∃ job, l.get? id = some job ∧ job.status.isTerminal = true) ∨
    (id ∉ (l.evict ttl now).1 ∧ (l.evict ttl now).2.get? id = l.get? id) := by
  by_cases hgone : id ∈ (l.evict ttl now).1
  · refine .inl ⟨hgone, ?_⟩
    obtain ⟨job, hjob, rfl⟩ := List.mem_map.mp hgone
    obtain ⟨hmem, hexpired⟩ := List.mem_filter.mp hjob
    have hover : job.status.isTerminal = true := (Bool.and_eq_true_iff.mp hexpired).1
    refine ⟨?_, job, get?_of_mem h hmem, hover⟩
    rw [evict, get?, List.find?_eq_none]
    intro other hother hid
    obtain ⟨hother, hkept⟩ := List.mem_filter.mp hother
    obtain rfl := List.inj_on_of_nodup_map h hother hmem (by simpa using hid)
    simp [hexpired] at hkept
  · refine .inr ⟨hgone, get?_filter _ fun job hjob hid => ?_⟩
    have hnot : isExpired (now - ttl) job ≠ true := fun hexpired =>
      hgone (List.mem_map.mpr ⟨job, List.mem_filter.mpr ⟨hjob, hexpired⟩, hid⟩)
    simpa using hnot

-- Some jobs that are over leave, and no other record is touched.
structure Sheds (l l' : Ledger) : Prop where
  kept : ∀ id job, l.get? id = some job → job.status.isTerminal = false → l'.get? id = some job
  known : ∀ id job, l'.get? id = some job → l.get? id = some job
  distinct : l'.Distinct

theorem evict_sheds (h : l.Distinct) (ttl now : Nat) : l.Sheds (l.evict ttl now).2 where
  kept := by
    intro id job hjob hlive
    obtain ⟨hmem, rfl⟩ := get?_mem hjob
    rw [evict, get?_filter _ fun other hother he => ?_]
    · exact hjob
    · obtain rfl := List.inj_on_of_nodup_map h hother hmem he
      simp [isExpired_eq_false hlive]
  known := by
    intro id job hjob
    obtain ⟨hmem, rfl⟩ := get?_mem hjob
    exact get?_of_mem h (List.mem_filter.mp hmem).1
  distinct := h.sublist (List.filter_sublist.map _)

end Ledger

end Foreman
