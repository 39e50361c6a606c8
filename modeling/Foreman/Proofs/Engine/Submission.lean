import Foreman.Proofs.Engine.Lineup
import Foreman.Proofs.Engine.Refusals
import Foreman.Proofs.Queue.Turns

namespace Foreman

theorem Fault.isBackpressure_iff (fault : Fault) :
    fault.isBackpressure = true ↔ ∃ capacity, fault = .queueFull capacity := by
  cases fault with
  | queueFull capacity => exact iff_of_true rfl ⟨capacity, rfl⟩
  | _ => exact iff_of_false Bool.false_ne_true (by simp)

-- So many entries are ahead of a new one.
theorem Queue.length_ahead_eq_countP {entries ahead behind : List Entry} {priority : Int}
    (hentries : entries = ahead ++ behind) (hahead : ∀ entry ∈ ahead, entry.priority ≤ priority)
    (hbehind : ∀ entry ∈ behind, priority < entry.priority) :
    ahead.length = entries.countP (fun entry => decide (entry.priority ≤ priority)) := by
  have hall : ahead.countP (fun entry => decide (entry.priority ≤ priority)) = ahead.length :=
    List.countP_eq_length.mpr fun entry hentry => decide_eq_true (hahead entry hentry)
  have hnone : behind.countP (fun entry => decide (entry.priority ≤ priority)) = 0 :=
    List.countP_eq_zero.mpr fun entry hentry => by simpa using hbehind entry hentry
  rw [hentries, List.countP_append, hall, hnone, Nat.add_zero]

-- The record of a job that was made and queued in one step.
def Job.submitted (id : JobId) (params : Params) (priority : Int) (maxRetries now : Nat) : Job :=
  { Job.fresh id params maxRetries now with priority := some priority }

namespace Ledger

variable {l : Ledger} {id : JobId} {job : Job}

-- A ledger with one more record.
def plus (l : Ledger) (job : Job) : Ledger := ⟨l.jobs ++ [job]⟩

theorem ne_of_absent (habsent : l.get? id = none) : ∀ job ∈ l.jobs, job.id ≠ id := by
  simpa [get?, List.find?_eq_none] using habsent

theorem filter_of_absent (habsent : l.get? id = none) :
    l.jobs.filter (fun job => job.id != id) = l.jobs :=
  List.filter_eq_self.mpr fun job hjob => by simpa using ne_of_absent habsent job hjob

theorem create_of_absent (habsent : l.get? id = none) (params : Params) (maxRetries now : Nat) :
    (l.create id params maxRetries now).2 = l.plus (Job.fresh id params maxRetries now) := by
  simp only [create, plus, filter_of_absent habsent]

theorem get?_plus (habsent : l.get? job.id = none) : (l.plus job).get? job.id = some job := by
  rw [get?] at habsent
  simp [get?, plus, List.find?_append, habsent]

theorem prioritized_plus (habsent : l.get? job.id = none) (priority : Int) :
    (l.plus job).prioritized job.id job priority =
      l.plus { job with priority := some priority } := by
  have hsame : ∀ other ∈ l.jobs, (if other.id = job.id then
      { job with priority := some priority } else other) = other :=
    fun other hother => if_neg (ne_of_absent habsent other hother)
  simp only [prioritized, update, plus, List.map_append, List.map_cons, List.map_nil, if_true]
  rw [List.map_congr_left hsame, List.map_id']

-- What is taken back at once was never there.
theorem discard_plus (habsent : l.get? job.id = none) (hpending : job.status = .pending) :
    (l.plus job).discard job.id = some l := by
  have hlast : [job].filter (fun other => other.id != job.id) = [] := by simp
  simp only [discard, get?_plus habsent, hpending, if_true]
  simp only [plus, List.filter_append, hlast, filter_of_absent habsent, List.append_nil]

end Ledger

namespace Engine

variable {b : Blueprint} {around : Surroundings} {t : Timeline} {id : JobId}

namespace State

variable {s s' : State} {job : Job} {rules : Config} {params : Params} {priority : Int}
  {maxRetries : Option Nat}

-- A job has been let in. There is one record and one entry more than before, which stands behind
-- those of a priority no worse than its own, and nothing else is different.
structure Admits (s : State) (id : JobId) (params : Params) (priority : Int) (maxRetries : Nat)
    (job : Job) (s' : State) : Prop where
  pending : job.status = .pending
  filed : job.priority = some priority
  place : job.position =
    some (1 + s.queue.entries.countP (fun entry => decide (entry.priority ≤ priority)))
  answer : job = { Job.submitted id params priority maxRetries s.now with position := job.position }
  frame : s' = { s with
    ledger := s.ledger.plus (Job.submitted id params priority maxRetries s.now)
    queue := s'.queue }
  entry : ∃ ahead behind, s.queue.entries = ahead ++ behind ∧
    s'.queue = { s.queue with
      entries := ahead ++ ⟨id, priority, s.now, s.queue.issued⟩ :: behind
      issued := s.queue.issued + 1 } ∧
    (∀ entry ∈ ahead, entry.priority ≤ priority) ∧ ∀ entry ∈ behind, priority < entry.priority

def withSubmitted (s : State) (id : JobId) (params : Params) (priority : Int)
    (maxRetries : Option Nat) : State :=
  { s with
    ledger := s.ledger.plus
      (Job.submitted id params priority (maxRetries.getD s.config.maxRetries) s.now) }

variable (params priority maxRetries)

-- Neither the ledger nor the state of a new job is in the way, so it is up to the queue.
theorem enqueue_addJob (habsent : s.ledger.get? id = none) :
    (s.addJob id params maxRetries).2.enqueue id priority =
      match s.queue.enqueue s.gate id priority s.now with
      | .error fault => (.error fault, s.withSubmitted id params priority maxRetries)
      | .ok (position, queue) =>
        (.ok position, { s.withSubmitted id params priority maxRetries with queue := queue }) := by
  let fresh := Job.fresh id params (maxRetries.getD s.config.maxRetries) s.now
  have hadded : (s.addJob id params maxRetries).2 = { s with ledger := s.ledger.plus fresh } := by
    simp only [addJob, Ledger.create_of_absent habsent, fresh]
  have hfresh : (s.ledger.plus fresh).get? id = some fresh := Ledger.get?_plus habsent
  have hput : (s.ledger.plus fresh).prioritized id fresh priority =
      (s.withSubmitted id params priority maxRetries).ledger :=
    Ledger.prioritized_plus habsent priority
  rw [hadded, enqueue_of_pending hfresh rfl, prioritized]
  simp only [hput]
  rfl

theorem forget_withSubmitted (habsent : s.ledger.get? id = none) :
    (s.withSubmitted id params priority maxRetries).forget id = s := by
  have hdiscard : (s.withSubmitted id params priority maxRetries).ledger.discard id =
      some s.ledger := Ledger.discard_plus habsent rfl
  rw [forget, hdiscard]
  rfl

theorem submit_of_error {fault : Fault}
    (h : (s.addJob id params maxRetries).2.enqueue id priority = (.error fault, s')) :
    s.submit id params priority maxRetries = (.error fault, s'.forget id) := by
  have hid : (s.addJob id params maxRetries).1.id = id := rfl
  simp only [submit, hid, h]

theorem submit_of_ok {position : Nat}
    (h : (s.addJob id params maxRetries).2.enqueue id priority = (.ok position, s'))
    (hjob : s'.job? id = some job) :
    s.submit id params priority maxRetries = (.ok job, s') := by
  have hid : (s.addJob id params maxRetries).1.id = id := rfl
  simp only [submit, hid, h, hjob]

theorem submit_of_full (h : s.LinedUp rules) (habsent : s.ledger.get? id = none)
    (hout : id ∉ s.queue.order) (hfree : id ∉ s.gate.holders)
    (hfull : s.queue.length = rules.queueCapacity) :
    s.submit id params priority maxRetries = (.error (.queueFull rules.queueCapacity), s) := by
  have hcapacity := h.capacity
  have hrefused : s.queue.enqueue s.gate id priority s.now =
      .error (.queueFull rules.queueCapacity) := by
    rcases s.queue.enqueue_cases s.gate id priority s.now with
      ⟨hin, -⟩ | ⟨-, hheld, -⟩ | ⟨-, -, -, heq⟩ | ⟨-, -, hroom, -⟩
    · exact absurd hin hout
    · exact absurd hheld hfree
    · rw [heq, hcapacity]
    · omega
  have hasked := enqueue_addJob params priority maxRetries habsent
  rw [hrefused] at hasked
  rw [submit_of_error params priority maxRetries hasked,
    forget_withSubmitted params priority maxRetries habsent]

theorem submit_of_room (h : s.LinedUp rules) (habsent : s.ledger.get? id = none)
    (hout : id ∉ s.queue.order) (hfree : id ∉ s.gate.holders)
    (hroom : s.queue.length ≠ rules.queueCapacity) :
    ∃ job s', s.submit id params priority maxRetries = (.ok job, s') ∧
      s.Admits id params priority (maxRetries.getD rules.maxRetries) job s' := by
  have hcapacity := h.capacity
  have hbounded := h.ordered.bounded
  have hless : s.queue.length < s.queue.capacity := by omega
  obtain ⟨position, hgranted⟩ : ∃ position, s.queue.enqueue s.gate id priority s.now =
      .ok (position, s.queue.joined id priority s.now) := by
    rcases s.queue.enqueue_cases s.gate id priority s.now with
      ⟨hin, -⟩ | ⟨-, hheld, -⟩ | ⟨-, -, hfull, -⟩ | ⟨-, -, -, hgranted⟩
    · exact absurd hin hout
    · exact absurd hheld hfree
    · omega
    · exact hgranted
  have hasked := enqueue_addJob params priority maxRetries habsent
  rw [hgranted] at hasked
  obtain rfl := h.config
  let record := Job.submitted id params priority (maxRetries.getD s.config.maxRetries) s.now
  let place := 1 + s.queue.entries.countP (fun entry => decide (entry.priority ≤ priority))
  have hrecord : (s.withSubmitted id params priority maxRetries).ledger.get? id = some record :=
    Ledger.get?_plus habsent
  -- The new entry comes right after those that are counted.
  obtain ⟨ahead, behind, hentries, hplace, hahead, hbehind⟩ := h.ordered.joined_split id priority
  have hposition : (s.queue.joined id priority s.now).position? id = some place := by
    rw [Queue.position?_of_nodup (h.ordered.joined hout hless priority).distinct hplace,
      Queue.length_ahead_eq_countP hentries hahead hbehind, Nat.add_comm]
  have hjob : ({ s.withSubmitted id params priority maxRetries with
      queue := s.queue.joined id priority s.now } : State).job? id =
        some { record with position := some place } := by
    have hpending : record.status = .pending := rfl
    simp only [job?, hrecord, Option.map_some, hpending, if_true, hposition, view]
  refine ⟨_, _, submit_of_ok params priority maxRetries hasked hjob, rfl, rfl, rfl, rfl, rfl, ?_⟩
  exact ⟨ahead, behind, hentries, by rw [← hplace]; rfl, hahead, hbehind⟩

end State

-- A job is let in unless the queue is full, and then the request leaves no trace. The four steps it
-- takes to make a job, to file its priority, to queue it and to take it back are one step here.
theorem submit_of_build (hbuild : b.build around = .ok t) (moves : List Move) (params : Params)
    (priority : Int) (maxRetries : Option Nat)
    (habsent : (t.state.run moves).ledger.get? id = none)
    (hout : id ∉ (t.state.run moves).queue.order)
    (hfree : id ∉ (t.state.run moves).gate.holders) :
    let s := t.state.run moves
    ((∃ fault s', s.submit id params priority maxRetries = (.error fault, s')) ↔
        s.queue.length = b.config.queueCapacity) ∧
      (∀ fault s', s.submit id params priority maxRetries = (.error fault, s') →
        fault = .queueFull b.config.queueCapacity ∧ s' = s) ∧
      (∀ fault : Fault, fault.isBackpressure = true ↔ ∃ capacity, fault = .queueFull capacity) ∧
      ∀ job s', s.submit id params priority maxRetries = (.ok job, s') →
        s.Admits id params priority (maxRetries.getD b.config.maxRetries) job s' := by
  intro s
  have hlined : s.LinedUp b.config := Blueprint.linedUp_of_build hbuild moves
  by_cases hfull : s.queue.length = b.config.queueCapacity
  · have hrefused := State.submit_of_full params priority maxRetries hlined habsent hout
      hfree hfull
    rw [hrefused]
    refine ⟨iff_of_true ⟨_, _, rfl⟩ hfull, ?_, Fault.isBackpressure_iff, ?_⟩
    · rintro fault s' heq
      obtain ⟨hfault, rfl⟩ := Prod.mk.inj heq
      exact ⟨(Except.error.inj hfault).symm, rfl⟩
    · rintro job s' heq
      cases (Prod.mk.inj heq).1
  · obtain ⟨found, next, hadmitted, hadmits⟩ := State.submit_of_room params priority
      maxRetries hlined habsent hout hfree hfull
    rw [hadmitted]
    refine ⟨iff_of_false ?_ hfull, ?_, Fault.isBackpressure_iff, ?_⟩
    · rintro ⟨fault, s', heq⟩
      cases (Prod.mk.inj heq).1
    · rintro fault s' heq
      cases (Prod.mk.inj heq).1
    · rintro job s' heq
      obtain ⟨hjob, rfl⟩ := Prod.mk.inj heq
      obtain rfl := Except.ok.inj hjob
      exact hadmits

-- Two jobs wait, and a third one comes in between.
def lineOfTwo : List Move := [.submit ⟨1⟩ [] 5 none, .submit ⟨2⟩ [] 9 none]

theorem submit_of_build_lineOfTwo :
    ∃ t, (Blueprint.idle 1).build default = .ok t ∧
      (t.state.run lineOfTwo).ledger.get? ⟨3⟩ = none ∧
      (⟨3⟩ : JobId) ∉ (t.state.run lineOfTwo).queue.order ∧
      (⟨3⟩ : JobId) ∉ (t.state.run lineOfTwo).gate.holders ∧
      ∃ job s', (t.state.run lineOfTwo).submit ⟨3⟩ [] 5 (some 0) = (.ok job, s') ∧
        job.position = some 2 ∧ s'.queue.order = [⟨1⟩, ⟨3⟩, ⟨2⟩] ∧
        (t.state.run lineOfTwo).Admits ⟨3⟩ [] 5 0 job s' := by
  have hbuild : (Blueprint.idle 1).build default = .ok _ := rfl
  have habsent : (((Blueprint.idle 1).initial default).run lineOfTwo).ledger.get? ⟨3⟩ = none := rfl
  have hout : (⟨3⟩ : JobId) ∉ (((Blueprint.idle 1).initial default).run lineOfTwo).queue.order := by
    decide
  have hfree :
      (⟨3⟩ : JobId) ∉ (((Blueprint.idle 1).initial default).run lineOfTwo).gate.holders := by
    decide
  obtain ⟨-, -, -, hadmits⟩ :=
    submit_of_build hbuild lineOfTwo [] 5 (some 0) habsent hout hfree
  exact ⟨_, hbuild, habsent, hout, hfree, _, _, rfl, rfl, rfl, hadmits _ _ rfl⟩

end Engine

end Foreman
