import Foreman.Proofs.Engine.Deeds

namespace Foreman

namespace Ledger

variable {l : Ledger} {id : JobId} {job : Job}

-- A priority put on record for a job whose record is known.
def prioritized (l : Ledger) (id : JobId) (job : Job) (priority : Int) : Ledger :=
  l.update id fun _ => { job with priority := some priority }

theorem setPriority_of_get? (hjob : l.get? id = some job) (priority : Int) :
    l.setPriority id priority =
      .ok ({ job with priority := some priority }, l.prioritized id job priority) := by
  simp only [setPriority, revise, hjob, prioritized]

theorem prioritized_rewrites (hjob : l.get? id = some job) (priority : Int) :
    l.Rewrites id job { job with priority := some priority } (l.prioritized id job priority) :=
  rewrites_update (f := fun _ => { job with priority := some priority }) hjob
    fun _ _ => (get?_mem hjob).2

theorem update_eq_self (h : l.Distinct) (hjob : l.get? id = some job) :
    l.update id (fun _ => job) = l := by
  obtain ⟨hmem, rfl⟩ := get?_mem hjob
  have hsame : ∀ found ∈ l.jobs, (if found.id = job.id then job else found) = found := by
    intro found hfound
    split
    · rename_i he
      exact (List.inj_on_of_nodup_map h hfound hmem he).symm
    · rfl
  rw [update, List.map_congr_left hsame, List.map_id']

-- Nothing changes just when the priority is the one that is there.
theorem prioritized_eq_self_iff (h : l.Distinct) (hjob : l.get? id = some job) {priority : Int} :
    l.prioritized id job priority = l ↔ job.priority = some priority := by
  constructor
  · intro hsame
    have hafter := (prioritized_rewrites hjob priority).after
    rw [hsame, hjob] at hafter
    exact congrArg Job.priority (Option.some_inj.mp hafter)
  · intro hpriority
    rw [prioritized, ← hpriority]
    exact update_eq_self h hjob

end Ledger

namespace Engine

variable {b : Blueprint} {around : Surroundings} {t : Timeline} {s s' : State} {id : JobId}
  {job : Job} {priority : Int} {fault : Fault}

namespace State

def prioritized (s : State) (id : JobId) (job : Job) (priority : Int) : State :=
  { s with ledger := s.ledger.prioritized id job priority }

-- All the ways in which a request to queue a job is turned down, and what it leaves behind. Only
-- the queue says no after the priority is on record.
inductive Refuses (s : State) (id : JobId) (priority : Int) : Fault → State → Prop
  | unknown (hnone : s.ledger.get? id = none) : Refuses s id priority (.notFound id) s
  | begun {job : Job} (hjob : s.ledger.get? id = some job) (hstatus : job.status ≠ .pending) :
      Refuses s id priority (.invalidTransition id job.status .pending) s
  | held {job : Job} (hjob : s.ledger.get? id = some job) (hpending : job.status = .pending)
      (hout : id ∉ s.queue.order) (hheld : id ∈ s.gate.holders) :
      Refuses s id priority (.slotHeld id) (s.prioritized id job priority)
  | full {job : Job} (hjob : s.ledger.get? id = some job) (hpending : job.status = .pending)
      (hout : id ∉ s.queue.order) (hfree : id ∉ s.gate.holders)
      (hfull : s.queue.capacity ≤ s.queue.length) :
      Refuses s id priority (.queueFull s.queue.capacity) (s.prioritized id job priority)

-- For a job that waits for its first attempt it is up to the queue.
theorem enqueue_of_pending (hjob : s.ledger.get? id = some job) (hpending : job.status = .pending) :
    s.enqueue id priority = match s.queue.enqueue s.gate id priority s.now with
      | .error fault => (.error fault, s.prioritized id job priority)
      | .ok (position, queue) =>
        (.ok position, { s.prioritized id job priority with queue := queue }) := by
  unfold enqueue
  simp only [hjob, hpending, if_true, Ledger.setPriority_of_get? hjob]
  rfl

theorem refuses_of_pending (hjob : s.ledger.get? id = some job) (hpending : job.status = .pending)
    (h : s.enqueue id priority = (.error fault, s')) : s.Refuses id priority fault s' := by
  rw [enqueue_of_pending hjob hpending] at h
  rcases s.queue.enqueue_cases s.gate id priority s.now with
    ⟨-, position, henqueue⟩ | ⟨hout, hheld, henqueue⟩ | ⟨hout, hfree, hfull, henqueue⟩ |
    ⟨-, -, -, position, henqueue⟩
  · rw [henqueue] at h
    cases h
  · rw [henqueue] at h
    cases h
    exact .held hjob hpending hout hheld
  · rw [henqueue] at h
    cases h
    exact .full hjob hpending hout hfree hfull
  · rw [henqueue] at h
    cases h

theorem enqueue_eq_error_iff :
    s.enqueue id priority = (.error fault, s') ↔ s.Refuses id priority fault s' := by
  constructor
  · intro h
    cases hjob : s.ledger.get? id with
    | none =>
      simp only [enqueue, hjob] at h
      cases h
      exact .unknown hjob
    | some job =>
      by_cases hpending : job.status = .pending
      · exact refuses_of_pending hjob hpending h
      · simp only [enqueue, hjob, if_neg hpending] at h
        cases h
        exact .begun hjob hpending
  · intro h
    cases h with
    | unknown hnone => simp only [enqueue, hnone]
    | begun hjob hstatus => simp only [enqueue, hjob, if_neg hstatus]
    | held hjob hpending hout hheld =>
      rcases s.queue.enqueue_cases s.gate id priority s.now with
        ⟨hin, -⟩ | ⟨-, -, henqueue⟩ | ⟨-, hfree, -⟩ | ⟨-, hfree, -⟩
      · exact absurd hin hout
      · rw [enqueue_of_pending hjob hpending, henqueue]
      · exact absurd hheld hfree
      · exact absurd hheld hfree
    | full hjob hpending hout hfree hfull =>
      rcases s.queue.enqueue_cases s.gate id priority s.now with
        ⟨hin, -⟩ | ⟨-, hheld, -⟩ | ⟨-, -, -, henqueue⟩ | ⟨-, -, hroom, -⟩
      · exact absurd hin hout
      · exact absurd hheld hfree
      · rw [enqueue_of_pending hjob hpending, henqueue]
      · exact absurd hfull (Nat.not_le.mpr hroom)

theorem prioritized_eq_self_iff (h : s.ledger.Distinct) (hjob : s.ledger.get? id = some job) :
    s.prioritized id job priority = s ↔ job.priority = some priority := by
  rw [← Ledger.prioritized_eq_self_iff h hjob]
  exact ⟨congrArg State.ledger, fun hsame => by rw [prioritized, hsame]⟩

-- What the queue turns down leaves nothing behind just when it asks for the priority on record.
theorem Refuses.eq_iff (h : s.Refuses id priority fault s') (hdistinct : s.ledger.Distinct) :
    s' = s ↔ ∀ job, s.ledger.get? id = some job → job.status = .pending →
      job.priority = some priority := by
  have honly : ∀ {job}, s.ledger.get? id = some job → job.status = .pending →
      (s.prioritized id job priority = s ↔ ∀ found, s.ledger.get? id = some found →
        found.status = .pending → found.priority = some priority) := by
    intro job hjob hpending
    rw [prioritized_eq_self_iff hdistinct hjob]
    exact ⟨fun hsame => Ledger.forall_get? hjob fun _ => hsame, fun hall => hall job hjob hpending⟩
  cases h with
  | unknown hnone => exact iff_of_true rfl fun job hjob => by cases hnone.symm.trans hjob
  | begun hjob hstatus =>
    exact iff_of_true rfl (Ledger.forall_get? hjob fun hpending => absurd hpending hstatus)
  | held hjob hpending => exact honly hjob hpending
  | full hjob hpending => exact honly hjob hpending

end State

-- At any time a request to queue a job that is turned down leaves queue and slots as they are, and
-- all records but that of the job, in which it puts the priority asked for if the job is PENDING.
-- So there is no trace of it just when that priority was on record before, or the job is not
-- PENDING or not known.
theorem refuses_of_enqueue (hbuild : b.build around = .ok t) (moves : List Move)
    (hrefused : (t.state.run moves).enqueue id priority = (.error fault, s')) :
    (t.state.run moves).Refuses id priority fault s' ∧
      (s' = t.state.run moves ↔ ∀ job, (t.state.run moves).ledger.get? id = some job →
        job.status = .pending → job.priority = some priority) := by
  have hrefuses := State.enqueue_eq_error_iff.mp hrefused
  exact ⟨hrefuses, hrefuses.eq_iff (Blueprint.distinct_of_build hbuild moves)⟩

-- Someone takes a job out of the queue by hand, and then asks for it to be queued as it was.
def takenOut : List Move := [.submit ⟨1⟩ [] 5 none, .takeJob]

theorem refuses_of_enqueue_takenOut :
    ∃ t s', (Blueprint.idle 1).build default = .ok t ∧
      (t.state.run takenOut).enqueue ⟨1⟩ 5 = (.error (.slotHeld ⟨1⟩), s') ∧
      s' = t.state.run takenOut := by
  have hbuild : (Blueprint.idle 1).build default = .ok _ := rfl
  have hrefused : (((Blueprint.idle 1).initial default).run takenOut).enqueue ⟨1⟩ 5 =
      (.error (.slotHeld ⟨1⟩), _) := rfl
  refine ⟨_, _, hbuild, hrefused, (refuses_of_enqueue hbuild takenOut hrefused).2.mpr ?_⟩
  rintro job hjob -
  obtain rfl := Option.some_inj.mp hjob
  rfl

-- There is room for one job in the queue, and another one has it.
def Blueprint.narrow : Blueprint :=
  { idle 1 with config := { (idle 1).config with queueCapacity := 1 } }

def crowded : List Move := [.create ⟨1⟩ [] none, .submit ⟨2⟩ [] 5 none]

theorem crowded_keeps_priority :
    ∃ t s' job, Blueprint.narrow.build default = .ok t ∧
      (t.state.run crowded).enqueue ⟨1⟩ 9 = (.error (.queueFull 1), s') ∧
      (t.state.run crowded).ledger.get? ⟨1⟩ = some job ∧ job.priority = none ∧
      s'.ledger.get? ⟨1⟩ = some { job with priority := some 9 } ∧ s' ≠ t.state.run crowded := by
  refine ⟨_, _, _, rfl, rfl, rfl, rfl, rfl, fun hsame => ?_⟩
  have hpriority := congrArg (fun s => (s.ledger.get? ⟨1⟩).map Job.priority) hsame
  cases hpriority

end Engine

end Foreman
