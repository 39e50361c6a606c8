import Foreman.Engine.Crew
import Foreman.Proofs.Engine.Shape
import Foreman.Proofs.Keyed

namespace Foreman.Engine

namespace Crew

variable {α : Type} {c : Crew α} {worker other : Worker α} {tag : Nat} {duty : α}

-- The handle is on the only worker who has not been told to go.
structure Sound (c : Crew α) : Prop where
  tags : (c.workers.map Worker.tag).Nodup
  hired : ∀ worker ∈ c.workers, worker.tag < c.hired
  active : ∀ worker ∈ c.workers, worker.aborted = false ↔ c.handle = some worker.tag
  present : ∀ tag ∈ c.handle, ∃ worker ∈ c.workers, worker.tag = tag

theorem worker?_mem (h : c.worker? tag = some worker) :
    worker ∈ c.workers ∧ worker.tag = tag :=
  ⟨List.mem_of_find?_eq_some h, by simpa using List.find?_some h⟩

theorem isGone_iff : c.isGone tag = true ↔ ∀ worker ∈ c.workers, worker.tag ≠ tag := by
  simp [isGone, worker?, List.find?_eq_none]

-- A crew that is told to go, or given other duties, is made up of the same workers.
theorem tags_dismiss (c : Crew α) :
    c.dismiss.workers.map Worker.tag = c.workers.map Worker.tag := by
  rw [dismiss, List.map_map]
  refine List.map_congr_left fun worker _ => ?_
  simp only [Function.comp]
  split <;> rfl

theorem tags_assign (c : Crew α) (tag : Nat) (duty : α) :
    (c.assign tag duty).workers.map Worker.tag = c.workers.map Worker.tag := by
  rw [assign, List.map_map]
  refine List.map_congr_left fun worker _ => ?_
  simp only [Function.comp]
  split <;> rfl

theorem exists_before {c' : Crew α}
    (htags : c'.workers.map Worker.tag = c.workers.map Worker.tag) (h : worker ∈ c'.workers) :
    ∃ old ∈ c.workers, old.tag = worker.tag :=
  List.mem_map.mp (htags ▸ List.mem_map_of_mem h)

theorem isGone_leave (c : Crew α) (tag : Nat) : (c.leave tag).isGone tag = true := by
  rw [isGone_iff]
  intro worker hworker
  simpa using (List.mem_filter.mp hworker).2

theorem duty?_of_handle (h : c.handle = none) : c.duty? = none := by
  rw [duty?, h, Option.bind_none]

-- Who has been told to go is still there until the next turn.
theorem exists_aborted (h : worker ∈ c.workers) (hhandle : c.handle = some worker.tag) :
    ∃ other ∈ c.dismiss.workers, other.tag = worker.tag ∧ other.aborted = true :=
  ⟨{ worker with aborted := true }, List.mem_map.mpr ⟨worker, h, if_pos hhandle⟩, rfl, rfl⟩

-- A worker of this tag was there and is gone.
def Past (c : Crew α) (tag : Nat) : Prop := c.isGone tag = true ∧ tag < c.hired

namespace Past

variable (h : c.Past tag)

include h

theorem hire (duty : α) : (c.hire duty).Past tag := by
  unfold Crew.hire
  split
  · exact h
  · refine ⟨isGone_iff.mpr fun worker hworker => ?_, Nat.lt_succ_of_lt h.2⟩
    rcases List.mem_append.mp hworker with hold | hnew
    · exact isGone_iff.mp h.1 worker hold
    · rw [List.mem_singleton.mp hnew]
      exact Nat.ne_of_gt h.2

theorem dismiss : c.dismiss.Past tag := by
  refine ⟨isGone_iff.mpr fun worker hworker => ?_, h.2⟩
  obtain ⟨old, hold, htag⟩ := exists_before c.tags_dismiss hworker
  exact htag ▸ isGone_iff.mp h.1 old hold

theorem leave (other : Nat) : (c.leave other).Past tag :=
  ⟨isGone_iff.mpr fun worker hworker => isGone_iff.mp h.1 worker (List.mem_filter.mp hworker).1,
    h.2⟩

theorem assign (other : Nat) (duty : α) : (c.assign other duty).Past tag := by
  refine ⟨isGone_iff.mpr fun worker hworker => ?_, h.2⟩
  obtain ⟨old, hold, htag⟩ := exists_before (c.tags_assign other duty) hworker
  exact htag ▸ isGone_iff.mp h.1 old hold

end Past

-- Everything that is ever done to a crew.
inductive Changes (c : Crew α) : Crew α → Prop
  | same : Changes c c
  | hired (duty : α) : Changes c (c.hire duty)
  | dismissed : Changes c c.dismiss
  | left (tag : Nat) : Changes c (c.leave tag)
  | assigned (tag : Nat) (duty : α) : Changes c (c.assign tag duty)

theorem Changes.past {c' : Crew α} (h : c.Changes c') (hpast : c.Past tag) : c'.Past tag := by
  cases h with
  | same => exact hpast
  | hired duty => exact hpast.hire duty
  | dismissed => exact hpast.dismiss
  | left other => exact hpast.leave other
  | assigned other duty => exact hpast.assign other duty

theorem Changes.hired_le {c' : Crew α} (h : c.Changes c') : c.hired ≤ c'.hired := by
  cases h with
  | hired duty =>
    unfold hire
    split
    · exact Nat.le_refl _
    · exact Nat.le_succ _
  | _ => exact Nat.le_refl _

-- What holds of the duty of each worker.
def Every (p : α → Prop) (c : Crew α) : Prop := ∀ worker ∈ c.workers, p worker.duty

theorem sound_empty : (empty : Crew α).Sound where
  tags := List.nodup_nil
  hired := by simp [empty]
  active := by simp [empty]
  present := by simp [empty]

namespace Sound

variable (h : c.Sound)

include h

theorem eq_of_tag (hworker : worker ∈ c.workers) (hother : other ∈ c.workers)
    (he : worker.tag = other.tag) : worker = other :=
  List.inj_on_of_nodup_map h.tags hworker hother he

theorem worker?_eq (hworker : worker ∈ c.workers) : c.worker? worker.tag = some worker :=
  Keyed.find?_key h.tags hworker

theorem isAtWork_eq : c.isAtWork = c.handle.isSome := by
  cases hhandle : c.handle with
  | none => simp [isAtWork, hhandle]
  | some tag =>
    obtain ⟨worker, hworker, rfl⟩ := h.present tag hhandle
    simp [isAtWork, hhandle, isGone, h.worker?_eq hworker]

-- There is never more than one worker who has not been told to go.
theorem length_active_le : (c.workers.filter (fun worker => !worker.aborted)).length ≤ 1 := by
  have htags : ((c.workers.filter (fun worker => !worker.aborted)).map Worker.tag).Nodup :=
    h.tags.sublist (List.filter_sublist.map _)
  have hhandle : (c.workers.filter (fun worker => !worker.aborted)).map Worker.tag ⊆
      c.handle.toList := by
    simp only [List.subset_def, List.forall_mem_map, List.mem_filter]
    rintro worker ⟨hworker, hactive⟩
    rw [(h.active worker hworker).mp (by simpa using hactive)]
    exact List.mem_singleton_self _
  calc (c.workers.filter (fun worker => !worker.aborted)).length
      = ((c.workers.filter (fun worker => !worker.aborted)).map Worker.tag).length := by simp
    _ ≤ c.handle.toList.length := (List.subperm_of_subset htags hhandle).length_le
    _ ≤ 1 := by cases c.handle <;> simp

theorem aborted_of_handle (hworker : worker ∈ c.workers) (hhandle : c.handle = none) :
    worker.aborted = true := by
  cases haborted : worker.aborted with
  | true => rfl
  | false =>
    rw [(h.active worker hworker).mp haborted] at hhandle
    cases hhandle

theorem hire (duty : α) : (c.hire duty).Sound := by
  unfold Crew.hire
  split
  · exact h
  · rename_i hidle
    have hhandle : c.handle = none := by
      simpa [h.isAtWork_eq] using hidle
    exact
      { tags := by
          rw [List.map_append, List.map_singleton, List.nodup_append]
          refine ⟨h.tags, List.nodup_singleton _, ?_⟩
          intro tag htag new hnew he
          obtain ⟨worker, hworker, rfl⟩ := List.mem_map.mp htag
          rw [List.mem_singleton] at hnew
          exact Nat.ne_of_lt (h.hired worker hworker) (he.trans hnew)
        hired := by
          intro worker hworker
          rcases List.mem_append.mp hworker with hold | hnew
          · exact Nat.lt_succ_of_lt (h.hired worker hold)
          · rw [List.mem_singleton.mp hnew]
            exact Nat.lt_succ_self _
        active := by
          intro worker hworker
          rcases List.mem_append.mp hworker with hold | hnew
          · rw [h.aborted_of_handle hold hhandle, Option.some_inj]
            exact ⟨nofun, fun he => absurd he.symm (Nat.ne_of_lt (h.hired worker hold))⟩
          · rw [List.mem_singleton.mp hnew]
            exact ⟨fun _ => rfl, fun _ => rfl⟩
        present := by
          rintro tag ⟨rfl⟩
          exact ⟨⟨c.hired, duty, false⟩, by simp, rfl⟩ }

theorem dismiss : c.dismiss.Sound where
  tags := by
    rw [c.tags_dismiss]
    exact h.tags
  hired := by
    intro worker hworker
    obtain ⟨old, hold, htag⟩ := exists_before c.tags_dismiss hworker
    exact htag ▸ h.hired old hold
  active := by
    simp only [Crew.dismiss, List.forall_mem_map]
    intro worker hworker
    split
    · simp
    · rename_i hother
      simpa using mt (h.active worker hworker).mp hother
  present := nofun

-- Only one who was told to go leaves.
theorem leave (hworker : worker ∈ c.workers) (haborted : worker.aborted = true) :
    (c.leave worker.tag).Sound where
  tags := h.tags.sublist (List.filter_sublist.map _)
  hired := fun other hother => h.hired other (List.mem_filter.mp hother).1
  active := fun other hother => h.active other (List.mem_filter.mp hother).1
  present := by
    intro tag htag
    obtain ⟨other, hother, rfl⟩ := h.present tag htag
    refine ⟨other, List.mem_filter.mpr ⟨hother, ?_⟩, rfl⟩
    have hactive := (h.active other hother).mpr htag
    rw [bne_iff_ne]
    intro he
    rw [h.eq_of_tag hother hworker he, haborted] at hactive
    cases hactive

theorem assign (tag : Nat) (duty : α) : (c.assign tag duty).Sound where
  tags := by
    rw [c.tags_assign]
    exact h.tags
  hired := by
    intro worker hworker
    obtain ⟨old, hold, htag⟩ := exists_before (c.tags_assign tag duty) hworker
    exact htag ▸ h.hired old hold
  active := by
    simp only [Crew.assign, List.forall_mem_map]
    intro worker hworker
    split
    · exact h.active worker hworker
    · exact h.active worker hworker
  present := by
    intro tag' htag'
    obtain ⟨worker, hworker, rfl⟩ := h.present tag' htag'
    refine ⟨_, List.mem_map_of_mem hworker, ?_⟩
    split <;> rfl

theorem duty?_eq (hworker : worker ∈ c.workers) (hhandle : c.handle = some worker.tag) :
    c.duty? = some worker.duty := by
  rw [duty?, hhandle, Option.bind_some, h.worker?_eq hworker, Option.map_some]

theorem duty?_hire (duty : α) : (c.hire duty).duty? = some (c.duty?.getD duty) := by
  cases hhandle : c.handle with
  | some tag =>
    obtain ⟨worker, hworker, rfl⟩ := h.present tag hhandle
    have hsame : c.hire duty = c := if_pos (by rw [h.isAtWork_eq, hhandle]; rfl)
    rw [hsame, h.duty?_eq hworker hhandle, Option.getD_some]
  | none =>
    have hnew : c.hire duty = ⟨c.workers ++ [⟨c.hired, duty, false⟩], some c.hired, c.hired + 1⟩ :=
      if_neg (by rw [h.isAtWork_eq, hhandle]; simp)
    have hnone : c.duty? = none := duty?_of_handle hhandle
    have hsound := h.hire duty
    rw [hnew] at hsound ⊢
    have hlast : (⟨c.hired, duty, false⟩ : Worker α) ∈ c.workers ++ [⟨c.hired, duty, false⟩] :=
      List.mem_append_right _ List.mem_cons_self
    rw [hsound.duty?_eq hlast rfl, hnone, Option.getD_none]

theorem duty?_assign (hworker : worker ∈ c.workers) (hhandle : c.handle = some worker.tag)
    (duty : α) : (c.assign worker.tag duty).duty? = some duty := by
  have hmem : { worker with duty := duty } ∈ (c.assign worker.tag duty).workers :=
    List.mem_map.mpr ⟨worker, hworker, if_pos rfl⟩
  exact (h.assign worker.tag duty).duty?_eq hmem hhandle

end Sound

namespace Every

variable {p : α → Prop} (h : c.Every p)

include h

theorem duty? (hduty : c.duty? = some duty) : p duty := by
  rw [Crew.duty?, Option.bind_eq_some_iff] at hduty
  obtain ⟨tag, -, hfound⟩ := hduty
  obtain ⟨worker, hworker, rfl⟩ := Option.map_eq_some_iff.mp hfound
  exact h worker (worker?_mem hworker).1

theorem hire (hduty : p duty) : (c.hire duty).Every p := by
  unfold Crew.hire
  split
  · exact h
  · intro worker hworker
    rcases List.mem_append.mp hworker with hold | hnew
    · exact h worker hold
    · rw [List.mem_singleton.mp hnew]
      exact hduty

theorem dismiss : c.dismiss.Every p := by
  simp only [Every, Crew.dismiss, List.forall_mem_map]
  intro worker hworker
  split
  · exact h worker hworker
  · exact h worker hworker

theorem leave (tag : Nat) : (c.leave tag).Every p :=
  fun worker hworker => h worker (List.mem_filter.mp hworker).1

theorem assign (tag : Nat) (hduty : p duty) : (c.assign tag duty).Every p := by
  simp only [Every, Crew.assign, List.forall_mem_map]
  intro worker hworker
  split
  · exact hduty
  · exact h worker hworker

end Every

end Crew

namespace State

variable {s : State}

theorem length_takeNext {job : JobId} {s' : State} (h : s.takeNext = some (job, s')) :
    s'.queue.length < s.queue.length := by
  obtain hnone | ⟨job', queue, gate, hsome, hqueued, -, rfl⟩ := takeNext_cases s
  · rw [hnone] at h
    cases h
  · rw [hsome] at h
    cases h
    obtain ⟨entry, hentry, rfl⟩ := Queue.mem_order_iff.mp hqueued
    show ((s.queue.entries.filter _).length < s.queue.entries.length)
    exact List.length_filter_lt_length_iff_exists.mpr ⟨entry, hentry, by simp⟩

theorem proceedWithin_asleep (fuel due : Nat) (s : State) :
    proceedWithin fuel (.asleep due) s = (.asleep due, s) := by
  induction fuel with
  | zero => rfl
  | succ fuel ih => exact ih

-- Two steps for a job make an attempt of it, and then the queue is shorter.
theorem proceedWithin_looking {n : Nat} (h : s.queue.length ≤ n) :
    proceedWithin (2 * n + 1) .looking s =
      (.asleep (Span.wakeAfter (burstWithin n s).now (burstWithin n s).config.poll.toMillis),
        burstWithin n s) := by
  induction n generalizing s with
  | zero =>
    have hnone : s.takeNext = none := by
      cases hnext : s.takeNext with
      | none => rfl
      | some taken =>
        have hlt := length_takeNext hnext
        omega
    simp [proceedWithin, proceed, hnone, burstWithin]
  | succ n ih =>
    have hfuel : 2 * (n + 1) + 1 = 2 * n + 1 + 1 + 1 := rfl
    rw [hfuel, proceedWithin]
    cases hnext : s.takeNext with
    | none => simp only [proceed, hnext, burstWithin, proceedWithin_asleep]
    | some taken =>
      obtain ⟨job, next⟩ := taken
      have hlt := length_takeNext hnext
      simp only [proceed, hnext, burstWithin]
      rw [proceedWithin]
      exact ih (s := next.spawn job true) (by show next.queue.length ≤ n; omega)

theorem burstWithin_clock (fuel : Nat) (s : State) : (burstWithin fuel s).now = s.now ∧
    (burstWithin fuel s).config = s.config ∧ (burstWithin fuel s).poll = s.poll ∧
    (burstWithin fuel s).upkeep = s.upkeep := by
  induction fuel generalizing s with
  | zero => exact ⟨rfl, rfl, rfl, rfl⟩
  | succ fuel ih =>
    unfold burstWithin
    obtain hnone | ⟨job, queue, gate, hsome, -, -, rfl⟩ := takeNext_cases s
    · rw [hnone]
      exact ⟨rfl, rfl, rfl, rfl⟩
    · rw [hsome]
      exact ih _

-- A turn of one who wakes up empties the queue as far as there are slots, and ends asleep.
theorem turn_of_due {due : Nat} (h : due ≤ s.now) :
    s.turn (.asleep due) = (.asleep (Span.wakeAfter s.now s.config.poll.toMillis), s.burst) := by
  obtain ⟨hnow, hconfig, -⟩ := burstWithin_clock s.queue.length s
  rw [turn, if_pos h, proceedWithin_looking (Nat.le_refl _), hnow, hconfig, burst]

theorem turn_of_early {due : Nat} (h : ¬ due ≤ s.now) : s.turn (.asleep due) = (.asleep due, s) :=
  if_neg h

end State

end Foreman.Engine
