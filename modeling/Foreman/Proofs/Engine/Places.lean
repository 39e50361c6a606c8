import Foreman.Proofs.Engine.Errands
import Foreman.Proofs.Queue.Turns

namespace Foreman

namespace Queue

variable {q : Queue} {now k : Nat} {job : JobId} {x : Entry} {ahead behind : List Entry}

-- The turn of an entry in the order of dispatch, wherever it is kept: it comes after all those that
-- go before it.
def turn (q : Queue) (entry : Entry) : Nat :=
  q.entries.countP (fun other => other.precedes entry) + 1

theorem turn_of_split (h : Lined q.entries) (hentries : q.entries = ahead ++ x :: behind) :
    q.turn x = ahead.length + 1 := by
  rw [hentries, Lined, List.pairwise_append, List.pairwise_cons] at h
  obtain ⟨-, ⟨hbehind, -⟩, hahead⟩ := h
  have hbefore : ahead.countP (fun other => other.precedes x) = ahead.length :=
    List.countP_eq_length.mpr fun other hother => hahead other hother x List.mem_cons_self
  have hafter : behind.countP (fun other => other.precedes x) = 0 := by
    rw [List.countP_eq_zero]
    intro other hother
    simp [Entry.precedes_asymm (hbehind other hother)]
  have hself : x.precedes x = false := by
    rw [Bool.eq_false_iff]
    intro hprecedes
    cases hprecedes.symm.trans (Entry.precedes_asymm hprecedes)
  simp [turn, hentries, hbefore, hafter, hself]

-- The position of a job is the turn of its entry.
theorem position?_eq_some_iff (h : q.Neat now) :
    q.position? job = some k ↔ ∃ entry ∈ q.entries, entry.job = job ∧ q.turn entry = k := by
  constructor
  · intro hposition
    obtain ⟨ahead, x, behind, hentries, hx, hk⟩ := exists_split h.ordered.distinct hposition
    refine ⟨x, ?_, hx, (turn_of_split h.lined hentries).trans hk⟩
    rw [hentries]
    exact List.mem_append_right _ List.mem_cons_self
  · rintro ⟨entry, hentry, rfl, rfl⟩
    obtain ⟨ahead, behind, hentries⟩ := List.append_of_mem hentry
    rw [turn_of_split h.lined hentries]
    exact position?_of_nodup h.ordered.distinct hentries

end Queue

namespace Ledger

variable {l l' : Ledger} {id : JobId} {job next : Job} {now : Nat} {named : Option JobId}

-- No record says anything about a place in the queue.
def Unplaced (l : Ledger) : Prop := ∀ id job, l.get? id = some job → job.position = none

theorem unplaced_empty : empty.Unplaced := by
  simp [Unplaced, empty, get?]

theorem Unplaced.touches (h : l.Unplaced) (htouches : l.Touches id l')
    (hafter : ∀ job, l'.get? id = some job → job.position = none) : l'.Unplaced := by
  intro other job hjob
  by_cases he : other = id
  · subst he
    exact hafter job hjob
  · exact h other job ((htouches.others other he) ▸ hjob)

theorem Unplaced.rewrites (h : l.Unplaced) (hrewrites : l.Rewrites id job next l')
    (hsame : job.position = none → next.position = none) : l'.Unplaced :=
  h.touches hrewrites.toTouches
    (forall_get? hrewrites.after (hsame (h id job hrewrites.before)))

-- Whatever is done to a record, its place is not written down.
theorem Unplaced.becomes (h : l.Unplaced) (hdistinct : l.Distinct)
    (hbecomes : l.Becomes now named l') : l'.Unplaced := by
  cases hbecomes with
  | unchanged => exact h
  | created id params maxRetries =>
    obtain ⟨htouches, hafter⟩ := l.create_touches id params maxRetries now
    exact h.touches htouches (forall_get? hafter rfl)
  | prioritized hrewrites => exact h.rewrites hrewrites id
  | begun hcan hrewrites => exact h.rewrites hrewrites fun _ => rfl
  | completed hcan hrewrites => exact h.rewrites hrewrites id
  | retried hcan hbudget hrewrites => exact h.rewrites hrewrites id
  | failed hcan hrewrites => exact h.rewrites hrewrites id
  | progressed hlive hrewrites => exact h.rewrites hrewrites id
  | discarded htouches hnone =>
    exact h.touches htouches fun _ hjob => nomatch hnone.symm.trans hjob
  | evicted ttl =>
    exact fun id job hjob => h id job ((evict_sheds hdistinct ttl now).known id job hjob)

theorem Unplaced.after (h : l.Unplaced) (hdistinct : l.Distinct) (deeds : List Deed) :
    (l.after deeds).Unplaced := by
  induction deeds generalizing l with
  | nil => exact h
  | cons deed deeds ih =>
    have hbecomes := l.act_becomes deed.time deed.act
    exact ih (h.becomes hdistinct hbecomes) (distinct_after hdistinct [deed])

end Ledger

namespace Engine

variable {b : Blueprint} {around : Surroundings} {t : Timeline} {s : State}

-- What those are told who ask for a job: where it is in the order of dispatch if it is PENDING and
-- in the queue, and nothing about its place in any other case; all else is as it is on record. In
-- whatever order a list comes upon the records, it tells of each job what would be told of it
-- alone.
structure State.TellsPlaces (s : State) : Prop where
  place : ∀ id k, (∃ job, s.job? id = some job ∧ job.position = some k) ↔
    (∃ job, s.ledger.get? id = some job ∧ job.status = .pending) ∧
      ∃ entry ∈ s.queue.entries, entry.job = id ∧ s.queue.turn entry = k
  record : ∀ id, (s.job? id).map (fun job => { job with position := none }) = s.ledger.get? id
  listed : ∀ found status limit, found.Perm s.ledger.jobs →
    (({ s with ledger := ⟨found⟩ } : State).jobs status limit).map some =
      ((⟨found⟩ : Ledger).list status limit).map (fun job => s.job? job.id)

namespace State

theorem job?_position (s : State) (id : JobId) (k : Nat) :
    (∃ job, s.job? id = some job ∧ job.position = some k) ↔
      (∃ job, s.ledger.get? id = some job ∧ job.status = .pending) ∧
        s.queue.position? id = some k := by
  unfold job?
  cases hjob : s.ledger.get? id with
  | none => simp
  | some job => by_cases hpending : job.status = .pending <;> simp [hpending]

theorem view_eq (s : State) (job : Job) :
    s.view job = { job with position := (s.view job).position } := by
  unfold view
  split
  · rfl
  · rfl

theorem job?_record (h : s.ledger.Unplaced) (id : JobId) :
    (s.job? id).map (fun job => { job with position := none }) = s.ledger.get? id := by
  unfold job?
  cases hjob : s.ledger.get? id with
  | none => rfl
  | some job =>
    have hnone := h id job hjob
    rw [Option.map_some, Option.map_some, s.view_eq job, ← hnone]

-- Where no record says anything about a place, a list that says nothing of it for jobs that are not
-- PENDING says the same as the answer for one of them.
theorem some_view (h : s.ledger.Unplaced) {job : Job} (hjob : s.ledger.get? job.id = some job) :
    some (s.view job) = s.job? job.id := by
  rw [job?, hjob, Option.map_some, view]
  by_cases hpending : job.status = .pending
  · simp only [hpending, if_true]
  · have hnone := h job.id job hjob
    simp only [hpending, if_false, ← hnone]

theorem tellsPlaces (hneat : s.queue.Neat s.now) (hdistinct : s.ledger.Distinct)
    (hunplaced : s.ledger.Unplaced) : s.TellsPlaces where
  place := fun id k => by rw [job?_position, Queue.position?_eq_some_iff hneat]
  record := job?_record hunplaced
  listed := by
    intro found status limit hfound
    rw [jobs, List.map_map]
    refine List.map_congr_left fun job hjob => ?_
    have hmem : job ∈ s.ledger.jobs := by
      have hkept := (List.take_subset _ _) hjob
      rw [List.mem_mergeSort] at hkept
      exact hfound.subset (List.mem_filter.mp hkept).1
    exact some_view hunplaced (Ledger.get?_of_mem hdistinct hmem)

end State

-- At any time, and whether the queue is kept as a list of entries or as a heap with an index: the
-- positions that are told are those in the order of dispatch, and a list tells the same ones.
theorem tellsPlaces_of_build (hbuild : b.build around = .ok t) (acts : List Act) :
    ((Site.ofState t.state).run acts).state.TellsPlaces ∧
      ∃ errands, ((b.heapDesk around).run IndexedQueue.discipline errands).2.Shows
        IndexedQueue.discipline Queue.discipline ((Site.ofState t.state).run acts).state.desk := by
  obtain ⟨deeds, hdeeds⟩ := Blueprint.ledger_of_build hbuild acts
  have hdistinct := Ledger.distinct_after Ledger.distinct_empty deeds
  have hunplaced := Ledger.unplaced_empty.after Ledger.distinct_empty deeds
  rw [← hdeeds] at hdistinct hunplaced
  obtain ⟨errands, halike⟩ := Blueprint.exists_alike_of_build hbuild acts
  exact ⟨State.tellsPlaces (Blueprint.neat_of_build hbuild acts) hdistinct hunplaced, errands,
    IndexedQueue.simulates_queue.shows halike⟩

-- The first of two jobs fails and is queued again behind the other one. Then comes a third that is
-- more urgent than both.
def queuedAgain : List Act :=
  [.move (.submit ⟨1⟩ [] 5 none), .move (.submit ⟨2⟩ [] 5 none), .move .start, .poll 0,
    .move (.beginTask 0), .move (.endTask 0 (.error (.retriable "busy"))),
    .move (.submit ⟨3⟩ [] 1 none)]

-- A job that waits for its second attempt has a place, and nobody is told of it.
theorem tellsPlaces_of_build_queuedAgain :
    ∃ t, (Blueprint.idle 1).build default = .ok t ∧
      ((Site.ofState t.state).run queuedAgain).state.TellsPlaces ∧
      ((Site.ofState t.state).run queuedAgain).state.queue.order = [⟨3⟩, ⟨2⟩, ⟨1⟩] ∧
      [1, 2, 3, 4].map (fun n =>
          (((Site.ofState t.state).run queuedAgain).state.job? ⟨n⟩).map Job.position) =
        [some none, some (some 2), some (some 1), none] := by
  have hbuild : (Blueprint.idle 1).build default = .ok _ := rfl
  exact ⟨_, hbuild, (tellsPlaces_of_build hbuild queuedAgain).1, by decide, by decide⟩

end Engine

end Foreman
