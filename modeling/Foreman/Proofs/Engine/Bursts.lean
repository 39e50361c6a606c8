import Foreman.Proofs.Engine.Errands

namespace Foreman

-- A gate that has given a slot to each of these jobs too.
def Gate.grant (g : Gate) (jobs : List JobId) : Gate :=
  { g with taken := g.taken + jobs.length, holders := g.holders ++ jobs }

namespace Queue

variable {q : Queue} {g : Gate} {entry : Entry} {rest : List Entry}

def withoutAll (q : Queue) (jobs : List JobId) : Queue :=
  { q with entries := q.entries.filter (fun entry => entry.job ∉ jobs) }

-- The entries whose jobs have no slot, in the order of dispatch.
def ready (q : Queue) (g : Gate) : List Entry :=
  q.entries.filter (fun entry => entry.job ∉ g.holders)

theorem withoutAll_nil (q : Queue) : q.withoutAll [] = q := by
  simp [withoutAll]

theorem withoutAll_cons (q : Queue) (job : JobId) (jobs : List JobId) :
    (q.without job).withoutAll jobs = q.withoutAll (job :: jobs) := by
  simp only [withoutAll, without, List.filter_filter]
  congr 2
  funext entry
  by_cases he : entry.job = job <;> simp [he]

theorem find?_eq_head?_ready (q : Queue) (g : Gate) :
    q.entries.find? (fun entry => !g.holds entry.job) = (q.ready g).head? := by
  rw [ready, List.head?_filter]
  congr 1
  funext entry
  simp [Gate.holds]

theorem dequeue?_of_ready (hready : q.ready g = entry :: rest) (hroom : 0 < g.free) :
    q.dequeue? g = some (entry.job, q.without entry.job, g.grant [entry.job]) := by
  have hfree : entry.job ∉ g.holders := by
    have hmem : entry ∈ q.ready g := hready ▸ List.mem_cons_self
    simpa using (List.mem_filter.mp hmem).2
  have hacquire : g.acquire? entry.job = some (g.grant [entry.job]) :=
    Gate.acquire?_eq_some_iff.mpr ⟨hfree, Nat.lt_of_sub_pos hroom, rfl⟩
  have hfind := q.find?_eq_head?_ready g
  rw [hready, List.head?_cons] at hfind
  simp only [dequeue?, hfind, hacquire]
  rfl

theorem ready_without (h : q.order.Nodup) (hready : q.ready g = entry :: rest) :
    (q.without entry.job).ready (g.grant [entry.job]) = rest := by
  have hsame : (q.without entry.job).ready (g.grant [entry.job]) =
      (q.ready g).filter (fun other => other.job != entry.job) := by
    simp only [ready, without, Gate.grant, List.filter_filter]
    refine List.filter_congr fun other _ => ?_
    by_cases he : other.job = entry.job <;> simp [he, Bool.and_comm]
  have hjobs : ((q.ready g).map Entry.job).Nodup := h.sublist (List.filter_sublist.map _)
  rw [hready, List.map_cons, List.nodup_cons] at hjobs
  rw [hsame, hready, List.filter_cons_of_neg (by simp), List.filter_eq_self]
  intro other hother
  rw [bne_iff_ne]
  exact fun he => hjobs.1 (he ▸ List.mem_map_of_mem hother)

end Queue

namespace Engine

namespace State

variable {s s' : State} {job : JobId} {jobs : List JobId}

-- The engine after a burst that has made attempts of these jobs: they have left the queue, each of
-- them has a slot, and the attempts begin in this order.
def handedOut (s : State) (jobs : List JobId) : State :=
  { s with
    queue := s.queue.withoutAll jobs
    line := { s.line with gate := s.gate.grant jobs }
    tasks := s.tasks ++ (jobs.zipIdx s.issued).map fun (job, ticket) =>
      ⟨ticket, job, true, .starting⟩
    issued := s.issued + jobs.length }

-- As many of the jobs without a slot as there are slots for, in the order of dispatch.
def handed (s : State) : List JobId :=
  ((s.queue.ready s.gate).take (min s.gate.free (s.queue.ready s.gate).length)).map Entry.job

theorem handedOut_nil (s : State) : s.handedOut [] = s := by
  simp [handedOut, Queue.withoutAll_nil, Gate.grant, gate]

theorem handedOut_cons (s : State) (job : JobId) (jobs : List JobId) :
    (s.handedOut [job]).handedOut jobs = s.handedOut (job :: jobs) := by
  have hqueue : (s.queue.withoutAll [job]).withoutAll jobs = s.queue.withoutAll (job :: jobs) := by
    rw [← Queue.withoutAll_cons, Queue.withoutAll_nil, Queue.withoutAll_cons]
  simp [handedOut, hqueue, Gate.grant, gate, List.zipIdx_cons, Nat.add_assoc, Nat.add_comm 1]

-- These jobs are the first ones without a slot, and there is a slot for each of them.
structure Affords (s : State) (jobs : List JobId) : Prop where
  distinct : s.queue.order.Nodup
  first : jobs <+: (s.queue.ready s.gate).map Entry.job
  room : jobs.length ≤ s.gate.free

-- One of them leaves the queue, and then the others can.
theorem Affords.next (h : s.Affords (job :: jobs)) :
    s.queue.dequeue? s.gate = some (job, s.queue.withoutAll [job], s.gate.grant [job]) ∧
      (s.handedOut [job]).Affords jobs := by
  obtain ⟨hdistinct, hfirst, hroom⟩ := h
  cases hready : s.queue.ready s.gate with
  | nil => simp [hready] at hfirst
  | cons entry rest =>
    rw [hready, List.map_cons, List.cons_prefix_cons] at hfirst
    obtain ⟨rfl, hfirst⟩ := hfirst
    have hqueue : s.queue.withoutAll [entry.job] = s.queue.without entry.job := by
      rw [← Queue.withoutAll_cons, Queue.withoutAll_nil]
    have hsome : 0 < s.gate.free := Nat.lt_of_lt_of_le (Nat.succ_pos _) hroom
    refine ⟨hqueue ▸ Queue.dequeue?_of_ready hready hsome, ?_, ?_, ?_⟩
    · show (s.queue.withoutAll [entry.job]).order.Nodup
      rw [hqueue]
      exact hdistinct.sublist (List.filter_sublist.map _)
    · show jobs <+: ((s.queue.withoutAll [entry.job]).ready (s.gate.grant [entry.job])).map _
      rw [hqueue, Queue.ready_without hdistinct hready]
      exact hfirst
    · show jobs.length ≤ s.gate.capacity - (s.gate.taken + 1)
      rw [Gate.free, List.length_cons] at hroom
      omega

theorem Affords.take (h : s.Affords jobs) (n : Nat) : s.Affords (jobs.take n) where
  distinct := h.distinct
  first := (List.take_prefix n jobs).trans h.first
  room := Nat.le_trans (List.length_take_le' n jobs) h.room

-- Two steps make an attempt of the first job.
theorem Affords.steps (h : s.Affords (job :: jobs)) :
    (s.proceed .looking).1 = .handing job ∧
      (s.proceed .looking).2.proceed (s.proceed .looking).1 = (.looking, s.handedOut [job]) := by
  rw [proceed, takeNext, h.next.1]
  exact ⟨rfl, rfl⟩

theorem Affords.looking (h : s.Affords jobs) :
    proceedWithin (2 * jobs.length) .looking s = (.looking, s.handedOut jobs) := by
  induction jobs generalizing s with
  | nil =>
    rw [handedOut_nil]
    rfl
  | cons job jobs ih =>
    have hsteps : 2 * (job :: jobs).length = 2 * jobs.length + 1 + 1 := rfl
    rw [hsteps, proceedWithin, proceedWithin, h.steps.2, ih h.next.2, handedOut_cons]

-- Each job comes to hand after those before it.
theorem Affords.handing (h : s.Affords jobs) {i : Nat} (hi : i < jobs.length) :
    (proceedWithin (2 * i + 1) .looking s).1 = .handing jobs[i] := by
  induction i generalizing s jobs with
  | zero =>
    cases jobs with
    | nil => exact absurd hi (Nat.not_lt_zero _)
    | cons job jobs => exact h.steps.1
  | succ i ih =>
    cases jobs with
    | nil => exact absurd hi (Nat.not_lt_zero _)
    | cons job jobs =>
      have hsteps : 2 * (i + 1) + 1 = 2 * i + 1 + 1 + 1 := rfl
      rw [hsteps, proceedWithin, proceedWithin, h.steps.2]
      exact ih h.next.2 (Nat.lt_of_succ_lt_succ hi)

-- As those see it who only hear what is answered at the desk.
theorem Affords.served (h : s.Affords jobs) :
    s.desk.run Queue.discipline (List.replicate jobs.length .dequeue) =
      (jobs.map fun job => .served (some job), (s.handedOut jobs).desk) := by
  induction jobs generalizing s with
  | nil =>
    rw [handedOut_nil]
    rfl
  | cons job jobs ih =>
    have hserve : s.desk.serve Queue.discipline .dequeue =
        (.served (some job), (s.handedOut [job]).desk) := by
      simp only [Desk.serve, Queue.discipline, desk, h.next.1]
      rfl
    rw [List.length_cons, List.replicate_succ, Desk.run, hserve]
    simp only [ih h.next.2, handedOut_cons, List.map_cons]

theorem affords_handed (hdistinct : s.queue.order.Nodup) : s.Affords s.handed where
  distinct := hdistinct
  first := (List.take_prefix _ _).map _
  room := by
    rw [handed, List.length_map, List.length_take]
    omega

theorem length_handed (s : State) :
    s.handed.length = min s.gate.free (s.queue.ready s.gate).length := by
  rw [handed, List.length_map, List.length_take]
  omega

-- No job that is handed out had a slot before.
theorem not_mem_handed (hheld : job ∈ s.gate.holders) : job ∉ s.handed := by
  intro hhanded
  obtain ⟨entry, hentry, rfl⟩ := List.mem_map.mp hhanded
  have hready := (List.mem_filter.mp (List.mem_of_mem_take hentry)).2
  simp [hheld] at hready

-- Whatever is left in the queue then either has a slot or would find none.
theorem acquire?_handedOut (s : State) : ∀ entry ∈ (s.handedOut s.handed).queue.entries,
    (s.handedOut s.handed).gate.acquire? entry.job = none := by
  intro entry hentry
  obtain ⟨hqueued, hleft⟩ := List.mem_filter.mp hentry
  rw [Gate.acquire?_eq_none_iff]
  by_cases hslots : s.gate.free ≤ (s.queue.ready s.gate).length
  · right
    show s.gate.capacity ≤ s.gate.taken + s.handed.length
    rw [s.length_handed, Nat.min_eq_left hslots, Gate.free]
    omega
  · left
    have hall : s.handed = (s.queue.ready s.gate).map Entry.job := by
      rw [handed, Nat.min_eq_right (by omega), List.take_length]
    have hheld : entry.job ∈ s.gate.holders := by
      by_contra hfree
      have hready : entry ∈ s.queue.ready s.gate :=
        List.mem_filter.mpr ⟨hqueued, by simpa using hfree⟩
      have hhanded : entry.job ∈ s.handed := hall ▸ List.mem_map_of_mem hready
      simp [hhanded] at hleft
    exact Gate.holds_iff.mpr (List.mem_append_left _ hheld)

theorem takeNext_eq_none (h : ∀ entry ∈ s.queue.entries, s.gate.acquire? entry.job = none) :
    s.takeNext = none := by
  rw [takeNext, Queue.dequeue?]
  cases hfind : s.queue.entries.find? (fun entry => !s.gate.holds entry.job) with
  | none => rfl
  | some entry => simp only [h entry (List.mem_of_find?_eq_some hfind)]

theorem proceedWithin_add (m n : Nat) (point : Point) (s : State) :
    proceedWithin (m + n) point s =
      proceedWithin n (proceedWithin m point s).1 (proceedWithin m point s).2 := by
  induction m generalizing point s with
  | zero => rw [Nat.zero_add, proceedWithin]
  | succ m ih => rw [Nat.succ_add, proceedWithin, proceedWithin, ih]

section

variable (hdistinct : s.queue.order.Nodup)

include hdistinct

theorem sleeps : proceedWithin (2 * s.handed.length + 1) .looking s =
    (.asleep (Span.wakeAfter s.now s.config.poll.toMillis), s.handedOut s.handed) := by
  have hnone : (s.handedOut s.handed).takeNext = none := takeNext_eq_none s.acquire?_handedOut
  rw [proceedWithin_add, (affords_handed hdistinct).looking]
  simp only [proceedWithin, proceed, hnone]
  rfl

-- As many steps as there may be for a burst are enough for it.
theorem burst_eq : s.burst = s.handedOut s.handed := by
  have hle : s.handed.length ≤ s.queue.length := by
    have hready : (s.queue.ready s.gate).length ≤ s.queue.length := List.length_filter_le _ _
    rw [s.length_handed]
    omega
  have hsteps : 2 * s.queue.length + 1 =
      2 * s.handed.length + 1 + 2 * (s.queue.length - s.handed.length) := by omega
  have hwhole := proceedWithin_looking (Nat.le_refl s.queue.length)
  rw [hsteps, proceedWithin_add, sleeps hdistinct, proceedWithin_asleep] at hwhole
  exact (congrArg Prod.snd hwhole).symm

theorem served_handed :
    (s.desk.run Queue.discipline (List.replicate (s.handed.length + 1) .dequeue)).1 =
      s.handed.map (fun job => .served (some job)) ++ [.served none] := by
  have hnone : (s.handedOut s.handed).queue.dequeue? (s.handedOut s.handed).gate = none := by
    have htaken := takeNext_eq_none s.acquire?_handedOut
    rw [takeNext] at htaken
    split at htaken
    · assumption
    · cases htaken
  rw [List.replicate_succ', Desk.run_append, (affords_handed hdistinct).served]
  simp only [Desk.run, Desk.serve, Queue.discipline, desk, hnone]

end

end State

namespace Site

-- What one who polls does between waking up and falling asleep: as many jobs are handed out as
-- there are slots for and as have none, the first of them and in this order, and an attempt begins
-- for each with a slot of its own. Those who have a slot keep their places, and nobody who is left
-- could get one.
structure Bursts (s : Site) : Prop where
  count : s.state.handed.length = min s.state.gate.free (s.state.queue.ready s.state.gate).length
  first : s.state.handed <+: (s.state.queue.ready s.state.gate).map Entry.job
  inOrder : Queue.Lined (s.state.queue.ready s.state.gate)
  looking : ∀ i ≤ s.state.handed.length, State.proceedWithin (2 * i) .looking s.state =
    (.looking, s.state.handedOut (s.state.handed.take i))
  handing : ∀ i (hi : i < s.state.handed.length),
    (State.proceedWithin (2 * i + 1) .looking s.state).1 = .handing s.state.handed[i]
  asleep : State.proceedWithin (2 * s.state.handed.length + 1) .looking s.state =
    (.asleep (Span.wakeAfter s.state.now s.state.config.poll.toMillis),
      s.state.handedOut s.state.handed)
  turn : ∀ worker ∈ s.pollers.workers, worker.aborted = false →
    ∀ due, worker.duty = .asleep due → due ≤ s.state.now →
      s.poll worker.tag = { s.withState (s.state.handedOut s.state.handed) with
        pollers := s.pollers.assign worker.tag
          (.asleep (Span.wakeAfter s.state.now s.state.config.poll.toMillis)) }
  kept : ∀ entry ∈ s.state.queue.entries, entry.job ∈ s.state.gate.holders →
    entry ∈ (s.state.handedOut s.state.handed).queue.entries
  spent : ∀ entry ∈ (s.state.handedOut s.state.handed).queue.entries,
    (s.state.handedOut s.state.handed).gate.acquire? entry.job = none

variable {s : Site} {now : Nat}

theorem Sound.bursts (h : s.Sound) (hneat : s.state.queue.Neat now) : s.Bursts where
  count := s.state.length_handed
  first := (State.affords_handed hneat.ordered.distinct).first
  inOrder := hneat.lined.filter _
  looking := by
    intro i hi
    have htaken := ((State.affords_handed hneat.ordered.distinct).take i).looking
    rwa [List.length_take, Nat.min_eq_left hi] at htaken
  handing := fun i hi => (State.affords_handed hneat.ordered.distinct).handing hi
  asleep := State.sleeps hneat.ordered.distinct
  turn := by
    intro worker hworker hactive due hduty hdue
    rw [Site.poll, h.pollers.worker?_eq hworker]
    simp only [hactive, hduty, Bool.false_eq_true, if_false, State.turn_of_due hdue]
    rw [State.burst_eq hneat.ordered.distinct]
  kept := by
    intro entry hentry hheld
    exact List.mem_filter.mpr ⟨hentry, by simpa using State.not_mem_handed hheld⟩
  spent := s.state.acquire?_handedOut

end Site

variable {b : Blueprint} {around : Surroundings} {t : Timeline}

-- At any time, and whether the queue is kept as a list of entries or as a heap with an index:
-- whoever wakes up hands out all that can be handed out, and then there is no more.
theorem bursts_of_build (hbuild : b.build around = .ok t) (acts : List Act) :
    ((Site.ofState t.state).run acts).Bursts ∧
      ∃ errands, let kept := ((b.heapDesk around).run IndexedQueue.discipline errands).2
        let s := ((Site.ofState t.state).run acts).state
        kept.Shows IndexedQueue.discipline Queue.discipline s.desk ∧
          (kept.run IndexedQueue.discipline (List.replicate (s.handed.length + 1) .dequeue)).1 =
            s.handed.map (fun job => .served (some job)) ++ [.served none] := by
  have hneat := Blueprint.neat_of_build hbuild acts
  obtain ⟨errands, halike⟩ := Blueprint.exists_alike_of_build hbuild acts
  refine ⟨((Blueprint.sound_of_build hbuild).run acts).bursts hneat, errands,
    IndexedQueue.simulates_queue.shows halike, ?_⟩
  rw [(IndexedQueue.simulates_queue.run halike _).1]
  exact State.served_handed hneat.ordered.distinct

-- One of four jobs has been given a slot outside of the queue, and there are two more slots.
-- Someone is about to poll.
def fourQueued : List Act :=
  [.move (.submit ⟨1⟩ [] 5 none), .move (.submit ⟨2⟩ [] 5 none), .move (.submit ⟨3⟩ [] 1 none),
    .move (.submit ⟨4⟩ [] 9 none), .move (.arrive ⟨1⟩ .slot 1000), .move (.firstLook 0),
    .move .start]

theorem bursts_of_build_fourQueued :
    ∃ t, (Blueprint.idle 3).build default = .ok t ∧
      ((Site.ofState t.state).run fourQueued).Bursts ∧
      ((Site.ofState t.state).run fourQueued).state.handed = [⟨3⟩, ⟨2⟩] ∧
      (((Site.ofState t.state).run fourQueued).poll 0).state.queue.order = [⟨1⟩, ⟨4⟩] ∧
      (((Site.ofState t.state).run fourQueued).poll 0).state.tasks.map Task.job = [⟨3⟩, ⟨2⟩] ∧
      (((Site.ofState t.state).run fourQueued).poll 0).state.gate.holders =
        [⟨1⟩, ⟨3⟩, ⟨2⟩] := by
  have hbuild : (Blueprint.idle 3).build default = .ok _ := rfl
  exact ⟨_, hbuild, (bursts_of_build hbuild fourQueued).1, by decide, by decide, by decide,
    by decide⟩

end Engine

end Foreman
