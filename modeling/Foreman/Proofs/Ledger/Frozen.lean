import Foreman.Proofs.Ledger.History

namespace Foreman

-- An act with the time on the clock when it is made. The clock may go back, and those who evict
-- may go by another one.
structure Deed where
  time : Nat
  act : Act

namespace Deed

-- The priority that a deed puts on record for a job.
def files? (deed : Deed) (id : JobId) : Option Int :=
  match deed.act with
  | .setPriority other priority => if other = id then some priority else none
  | _ => none

-- Whether a deed is an eviction that takes a job with this record.
def evicts (deed : Deed) (job : Job) : Bool :=
  match deed.act with
  | .evict ttl => Ledger.isExpired (deed.time - ttl) job
  | _ => false

end Deed

-- The priority on record for a job after some deeds, if it was `priority` before.
def priorityAfter (id : JobId) (priority : Option Int) (deeds : List Deed) : Option Int :=
  deeds.foldl (fun priority deed => (deed.files? id).or priority) priority

namespace Ledger

def after (l : Ledger) (deeds : List Deed) : Ledger :=
  deeds.foldl (fun l deed => l.act deed.time deed.act) l

-- The record of a job is as it was, or the job has left by eviction.
def Frozen (l : Ledger) (job : Job) (deeds : List Deed) : Prop :=
  (l.after deeds).get? job.id = some job ∨
    ((l.after deeds).get? job.id = none ∧ ∃ deed ∈ deeds, deed.evicts job = true)

-- No record of a job that is over is touched.
def Spares (l l' : Ledger) : Prop :=
  ∀ id job, l.get? id = some job → job.status.isTerminal = true → l'.get? id = some job

variable {l l' : Ledger} {id other : JobId} {job found next : Job} {now ttl : Nat}
  {named : Option JobId} {deeds : List Deed}

theorem after_cons (l : Ledger) (deed : Deed) (deeds : List Deed) :
    l.after (deed :: deeds) = (l.act deed.time deed.act).after deeds := rfl

theorem after_append (l : Ledger) (first second : List Deed) :
    l.after (first ++ second) = (l.after first).after second := by
  simp [after]

theorem Spares.refl (l : Ledger) : l.Spares l := fun _ _ hjob _ => hjob

theorem Spares.of_error {α : Type} {r : Except Fault (α × Ledger)} {fault : Fault}
    (h : r = .error fault) : l.Spares (l.settled r) := by
  rw [h]
  exact .refl l

theorem Rewrites.spares (hrewrites : l.Rewrites id found next l')
    (hlive : found.status.isTerminal = false) : l.Spares l' := by
  intro other job hjob hover
  by_cases he : other = id
  · subst he
    obtain rfl := hrewrites.eq_before hjob
    cases hlive.symm.trans hover
  · exact (hrewrites.others other he).trans hjob

-- A job that can become something is not over.
theorem Rewrites.spares_of_canBecome (hrewrites : l.Rewrites id found next l') {target : Status}
    (hcan : found.status.canBecome target = true) : l.Spares l' := by
  refine hrewrites.spares ?_
  cases hover : found.status.isTerminal with
  | false => rfl
  | true => cases hcan.symm.trans (Status.canBecome_of_isTerminal hover target)

section

variable (l : Ledger) (id : JobId) (now : Nat)

theorem startAttempt_spares : l.Spares (l.settled (l.startAttempt id now)) := by
  rcases l.startAttempt_cases id now with ⟨job, l', hcan, hok, hrewrites⟩ | ⟨fault, herror, -⟩
  · rw [hok]
    exact hrewrites.spares_of_canBecome hcan
  · exact .of_error herror

theorem complete_spares (artifact : Artifact) :
    l.Spares (l.settled (l.complete id artifact now)) := by
  rcases l.complete_cases id artifact now with ⟨job, l', hcan, hok, hrewrites⟩ | ⟨fault, herror, -⟩
  · rw [hok]
    exact hrewrites.spares_of_canBecome hcan
  · exact .of_error herror

theorem retry_spares (reason : String) : l.Spares (l.settled (l.retry id reason)) := by
  rcases l.retry_cases id reason with ⟨job, l', hcan, -, hok, hrewrites⟩ | ⟨fault, herror, -⟩
  · rw [hok]
    exact hrewrites.spares_of_canBecome hcan
  · exact .of_error herror

theorem fail_spares (reason : String) : l.Spares (l.settled (l.fail id reason now)) := by
  rcases l.fail_cases id reason now with ⟨job, l', hcan, hok, hrewrites⟩ | ⟨fault, herror, -⟩
  · rw [hok]
    exact hrewrites.spares_of_canBecome hcan
  · exact .of_error herror

theorem move_spares (target : Status) (detail : Option String) (artifact : Option Artifact) :
    l.Spares (l.settled (l.move id target detail artifact now)) := by
  cases target with
  | pending =>
    simp only [move]
    cases l.get? id <;> exact .of_error rfl
  | processing => exact l.startAttempt_spares id now
  | retrying => exact l.retry_spares id (detail.getD "")
  | completed => cases artifact with
    | none =>
      simp only [move]
      cases l.get? id <;> exact .of_error rfl
    | some artifact => exact l.complete_spares id now artifact
  | failed => exact l.fail_spares id now (detail.getD "")

theorem setProgress_spares (percent : Nat) : l.Spares (l.settled (l.setProgress id percent)) := by
  rcases l.setProgress_cases id percent with
    ⟨job, l', hlive, hok, hrewrites⟩ | hok | ⟨fault, herror⟩
  · rw [hok]
    exact hrewrites.spares hlive
  · rw [hok]
    exact .refl l
  · exact .of_error herror

theorem discard_spares : l.Spares ((l.discard id).getD l) := by
  rcases l.discard_cases id with ⟨job, l', hjob, hpending, hdiscard, htouches, -⟩ | ⟨hdiscard, -⟩
  · rw [hdiscard]
    intro other found hfound hover
    refine (htouches.others other fun he => ?_).trans hfound
    subst he
    obtain rfl := Option.some_inj.mp (hjob.symm.trans hfound)
    simp [hpending, Status.isTerminal] at hover
  · rw [hdiscard]
    exact .refl l

end

-- The only act on a job that does not ask whether it is over.
theorem get?_setPriority (hjob : l.get? id = some job) (other : JobId) (priority : Int) :
    (l.settled (l.setPriority other priority)).get? id =
      some { job with
        priority := (if other = id then some priority else none).or job.priority } := by
  rcases l.setPriority_cases other priority with
    ⟨found, l', hok, hrewrites⟩ | ⟨fault, herror, hnone⟩
  · simp only [hok, settled]
    by_cases he : other = id
    · subst he
      obtain rfl := hrewrites.eq_before hjob
      rw [if_pos rfl, Option.some_or]
      exact hrewrites.after
    · rw [if_neg he, Option.none_or]
      exact (hrewrites.others id (Ne.symm he)).trans hjob
  · have he : other ≠ id := by
      rintro rfl
      cases hnone.symm.trans hjob
    simp only [herror, settled, if_neg he, Option.none_or]
    exact hjob

theorem get?_evict (h : l.Distinct) (hjob : l.get? id = some job) (ttl now : Nat) :
    (l.evict ttl now).2.get? id = if isExpired (now - ttl) job then none else some job := by
  obtain ⟨hmem, rfl⟩ := get?_mem hjob
  -- No other record has the same name.
  have honly : ∀ found ∈ l.jobs, found.id = job.id → found = job := fun found hfound he =>
    List.inj_on_of_nodup_map h hfound hmem he
  split
  · rename_i hexpired
    simp only [get?, evict, List.find?_eq_none, List.mem_filter, beq_iff_eq]
    rintro found ⟨hfound, hkept⟩ he
    rw [honly found hfound he, hexpired] at hkept
    cases hkept
  · rename_i hfresh
    rw [evict, get?_filter _ fun found hfound he => ?_]
    · exact hjob
    · simpa [honly found hfound he] using hfresh

theorem Becomes.distinct (hbecomes : l.Becomes now named l') (h : l.Distinct) : l'.Distinct := by
  cases hbecomes with
  | unchanged => exact h
  | created id params maxRetries => exact (l.create_touches id params maxRetries now).1.distinct h
  | prioritized hrewrites => exact hrewrites.distinct h
  | begun _ hrewrites => exact hrewrites.distinct h
  | completed _ hrewrites => exact hrewrites.distinct h
  | retried _ _ hrewrites => exact hrewrites.distinct h
  | failed _ hrewrites => exact hrewrites.distinct h
  | progressed _ hrewrites => exact hrewrites.distinct h
  | discarded htouches _ => exact htouches.distinct h
  | evicted ttl => exact (evict_sheds h ttl now).distinct

theorem Rewrites.get?_eq_none (hrewrites : l.Rewrites other found next l')
    (hnone : l.get? id = none) : l'.get? id = none := by
  refine (hrewrites.others id fun he => ?_).trans hnone
  subst he
  cases hrewrites.before.symm.trans hnone

-- A job that is gone does not come back, unless a new one gets its name.
theorem Becomes.get?_eq_none (hbecomes : l.Becomes now named l') (h : l.Distinct)
    (hnone : l.get? id = none) (hname : named ≠ some id) : l'.get? id = none := by
  cases hbecomes with
  | unchanged => exact hnone
  | created other params maxRetries =>
    refine ((l.create_touches other params maxRetries now).1.others id fun he => ?_).trans hnone
    exact hname (he ▸ rfl)
  | prioritized hrewrites => exact hrewrites.get?_eq_none hnone
  | begun _ hrewrites => exact hrewrites.get?_eq_none hnone
  | completed _ hrewrites => exact hrewrites.get?_eq_none hnone
  | retried _ _ hrewrites => exact hrewrites.get?_eq_none hnone
  | failed _ hrewrites => exact hrewrites.get?_eq_none hnone
  | progressed _ hrewrites => exact hrewrites.get?_eq_none hnone
  | @discarded other _ htouches hgone =>
    by_cases he : id = other
    · exact he ▸ hgone
    · exact (htouches.others id he).trans hnone
  | evicted ttl =>
    cases hfound : (l.evict ttl now).2.get? id with
    | none => rfl
    | some job => cases ((evict_sheds h ttl now).known id job hfound).symm.trans hnone

-- What one deed makes of the record of a job that is over.
theorem get?_act_of_over (h : l.Distinct) (hjob : l.get? id = some job)
    (hover : job.status.isTerminal = true) (deed : Deed) (hname : deed.act.names? ≠ some id) :
    (l.act deed.time deed.act).get? id = if deed.evicts job then none else
      some { job with priority := (deed.files? id).or job.priority } := by
  obtain ⟨now, act⟩ := deed
  have hspared : ∀ {l' : Ledger}, l.Spares l' → l'.get? id = some job :=
    fun hspares => hspares id job hjob hover
  cases act with
  | create other params maxRetries =>
    refine ((l.create_touches other params maxRetries now).1.others id fun he => ?_).trans hjob
    exact hname (he ▸ rfl)
  | setPriority other priority => exact get?_setPriority hjob other priority
  | startAttempt other => exact hspared (l.startAttempt_spares other now)
  | complete other artifact => exact hspared (l.complete_spares other now artifact)
  | retry other reason => exact hspared (l.retry_spares other reason)
  | fail other reason => exact hspared (l.fail_spares other now reason)
  | setProgress other percent => exact hspared (l.setProgress_spares other percent)
  | move other target detail artifact =>
    exact hspared (l.move_spares other now target detail artifact)
  | discard other => exact hspared (l.discard_spares other)
  | evict ttl => exact get?_evict h hjob ttl now
  | wait time => exact hjob

theorem distinct_empty : empty.Distinct := List.nodup_nil

theorem distinct_after (h : l.Distinct) (deeds : List Deed) : (l.after deeds).Distinct := by
  induction deeds generalizing l with
  | nil => exact h
  | cons deed deeds ih => exact ih ((l.act_becomes deed.time deed.act).distinct h)

theorem after_eq_none (h : l.Distinct) (hnone : l.get? id = none)
    (hnames : ∀ deed ∈ deeds, deed.act.names? ≠ some id) : (l.after deeds).get? id = none := by
  induction deeds generalizing l with
  | nil => exact hnone
  | cons deed deeds ih =>
    have hbecomes := l.act_becomes deed.time deed.act
    exact ih (hbecomes.distinct h)
      (hbecomes.get?_eq_none h hnone (hnames deed List.mem_cons_self))
      (fun other hother => hnames other (List.mem_cons_of_mem _ hother))

theorem get?_after_of_over (h : l.Distinct) (hjob : l.get? id = some job)
    (hover : job.status.isTerminal = true) (hnames : ∀ deed ∈ deeds, deed.act.names? ≠ some id) :
    (l.after deeds).get? id = if deeds.any (fun deed => deed.evicts job) then none else
      some { job with priority := priorityAfter id job.priority deeds } := by
  induction deeds generalizing l job with
  | nil => exact hjob
  | cons deed deeds ih =>
    have hname := hnames deed List.mem_cons_self
    have hrest : ∀ other ∈ deeds, other.act.names? ≠ some id :=
      fun other hother => hnames other (List.mem_cons_of_mem _ hother)
    have hdistinct := (l.act_becomes deed.time deed.act).distinct h
    have hstep := get?_act_of_over h hjob hover deed hname
    rw [after_cons, List.any_cons]
    cases hevicts : deed.evicts job with
    | true =>
      rw [hevicts, if_pos rfl] at hstep
      exact after_eq_none hdistinct hstep hrest
    | false =>
      rw [hevicts, if_neg Bool.false_ne_true] at hstep
      -- Whether a job expires does not depend on its priority.
      exact ih hdistinct hstep hover hrest

end Ledger

-- A job that is over leaves by the first eviction for which it is old enough. Until then its record
-- says what it said, except that a priority can be put on record for it. So it is frozen exactly as
-- long as none is, or none but the one that it has.
theorem frozen_iff_priorityAfter (before deeds : List Deed) {id : JobId} {job : Job}
    (hjob : (Ledger.empty.after before).get? id = some job)
    (hover : job.status.isTerminal = true) (hnames : ∀ deed ∈ deeds, deed.act.names? ≠ some id) :
    ((Ledger.empty.after (before ++ deeds)).get? id =
      if deeds.any (fun deed => deed.evicts job) then none else
        some { job with priority := priorityAfter id job.priority deeds }) ∧
    ((Ledger.empty.after before).Frozen job deeds ↔
      (∃ deed ∈ deeds, deed.evicts job = true) ∨
        priorityAfter id job.priority deeds = job.priority) := by
  have hdistinct := Ledger.distinct_after Ledger.distinct_empty before
  have hafter := Ledger.get?_after_of_over hdistinct hjob hover hnames
  obtain ⟨-, rfl⟩ := Ledger.get?_mem hjob
  rw [Ledger.after_append]
  refine ⟨hafter, ?_⟩
  rw [Ledger.Frozen, hafter]
  by_cases hevicted : ∃ deed ∈ deeds, deed.evicts job = true
  · rw [if_pos (List.any_eq_true.mpr hevicted)]
    exact ⟨fun _ => .inl hevicted, fun _ => .inr ⟨rfl, hevicted⟩⟩
  · rw [if_neg (mt List.any_eq_true.mp hevicted)]
    constructor
    · rintro (hsame | ⟨hnone, -⟩)
      · exact .inr (congrArg Job.priority (Option.some_inj.mp hsame))
      · cases hnone
    · rintro (hgone | hsame)
      · exact absurd hgone hevicted
      · rw [hsame]
        exact .inl rfl

-- A job is completed under the priority that it was queued with.
def completedOnce : List Deed :=
  [⟨10, .create ⟨1⟩ [] 1⟩, ⟨10, .setPriority ⟨1⟩ 5⟩, ⟨12, .startAttempt ⟨1⟩⟩,
    ⟨20, .complete ⟨1⟩ ⟨"out", 8, 0⟩⟩]

-- What is asked of it then is turned down, until an eviction takes it.
def pastIts : List Deed :=
  [⟨21, .fail ⟨1⟩ "late"⟩, ⟨22, .setProgress ⟨1⟩ 40⟩, ⟨23, .setPriority ⟨1⟩ 9⟩,
    ⟨24, .evict 4⟩, ⟨23, .setPriority ⟨1⟩ 5⟩, ⟨24, .discard ⟨1⟩⟩, ⟨24, .create ⟨2⟩ [] 0⟩]

theorem frozen_iff_priorityAfter_completedOnce :
    ∃ job, (Ledger.empty.after completedOnce).get? ⟨1⟩ = some job ∧
      job.status.isTerminal = true ∧ (∀ deed ∈ pastIts, deed.act.names? ≠ some ⟨1⟩) ∧
      (Ledger.empty.after (completedOnce ++ pastIts)).get? ⟨1⟩ = some job ∧
      (Ledger.empty.after completedOnce).Frozen job pastIts := by
  have hjob : (Ledger.empty.after completedOnce).get? ⟨1⟩ = some _ := rfl
  have hnames : ∀ deed ∈ pastIts, deed.act.names? ≠ some ⟨1⟩ := by decide
  obtain ⟨hrecord, hfrozen⟩ := frozen_iff_priorityAfter completedOnce pastIts hjob rfl hnames
  exact ⟨_, hjob, rfl, hnames, hrecord, hfrozen.mpr (.inr rfl)⟩

-- Another priority is put on record for the job, although it is over.
theorem refiled_not_frozen :
    ∃ job, (Ledger.empty.after completedOnce).get? ⟨1⟩ = some job ∧ job.status = .completed ∧
      job.priority = some 5 ∧
      (Ledger.empty.after (completedOnce ++ [⟨21, .setPriority ⟨1⟩ 9⟩])).get? ⟨1⟩ =
        some { job with priority := some 9 } ∧
      ¬ (Ledger.empty.after completedOnce).Frozen job [⟨21, .setPriority ⟨1⟩ 9⟩] := by
  refine ⟨_, rfl, rfl, rfl, rfl, ?_⟩
  rintro (hsame | ⟨-, deed, hdeed, hevicts⟩)
  · cases congrArg Job.priority (Option.some_inj.mp hsame)
  · rw [List.mem_singleton.mp hdeed] at hevicts
    cases hevicts

end Foreman
