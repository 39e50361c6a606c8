import Foreman.Proofs.Queue.Index

namespace Foreman

-- One entry goes before another if its priority is better, or if it is the same and the entry
-- came earlier.
def Entry.Before (a b : Entry) : Prop :=
  a.priority < b.priority ∨ (a.priority = b.priority ∧ a.since ≤ b.since ∧ a.ticket < b.ticket)

namespace Queue

variable {q : Queue} {now : Nat} {job : JobId} {a b : Entry}

-- The queue is in order, and the tickets in it go by time.
structure Neat (q : Queue) (now : Nat) : Prop where
  ordered : q.Ordered now
  lined : Lined q.entries
  tickets : ∀ a ∈ q.entries, ∀ b ∈ q.entries, a.since < b.since → a.ticket < b.ticket

theorem neat_ofCapacity (n now : Nat) : (ofCapacity n).Neat now :=
  ⟨ordered_ofCapacity n now, List.Pairwise.nil, by simp [ofCapacity]⟩

namespace Neat

theorem later (h : q.Neat now) {next : Nat} (hle : now ≤ next) : q.Neat next :=
  { h with ordered := h.ordered.later hle }

theorem without (h : q.Neat now) (job : JobId) : (q.without job).Neat now where
  ordered := h.ordered.without job
  lined := h.lined.filter _
  tickets := fun a ha b hb => h.tickets a (List.mem_filter.mp ha).1 b (List.mem_filter.mp hb).1

theorem joined (h : q.Neat now) (hout : job ∉ q.order) (hroom : q.length < q.capacity)
    (priority : Int) : (q.joined job priority now).Neat now where
  ordered := h.ordered.joined hout hroom priority
  lined := h.lined.joined h.ordered job priority
  tickets := by
    intro a ha b hb hsince
    rcases mem_place.mp ha with rfl | ha
    · rcases mem_place.mp hb with rfl | hb
      · exact absurd hsince (Nat.lt_irrefl _)
      · exact absurd hsince (Nat.not_lt.mpr (h.ordered.since_le b hb))
    · rcases mem_place.mp hb with rfl | hb
      · exact h.ordered.ticket_lt a ha
      · exact h.tickets a ha b hb hsince

theorem before (h : q.Neat now) (ha : a ∈ q.entries) (hb : b ∈ q.entries)
    (hab : a.precedes b = true) : a.Before b := by
  rcases Entry.precedes_iff.mp hab with hlt | ⟨he, hsince | ⟨hsame, hticket⟩⟩
  · exact .inl hlt
  · exact .inr ⟨he, Nat.le_of_lt hsince, h.tickets a ha b hb hsince⟩
  · exact .inr ⟨he, Nat.le_of_eq hsame, hticket⟩

end Neat

-- The jobs in the queue have the numbers from 1 on as their positions.
theorem positions_eq (h : q.order.Nodup) :
    q.order.map q.position? = (List.range' 1 q.length).map some := by
  have hlength : q.length = q.order.length := (List.length_map Entry.job).symm
  rw [hlength]
  exact map_findIdx?_self h

end Queue

namespace Desk

open Queue (Lined)

variable {α β : Type} {d : Discipline α} {e : Discipline β} {desk next : Desk α}
  {other later : Desk β} {job : JobId}

-- Everything that an errand can do to the queue.
theorem serve_cases (desk : Desk Queue) (errand : Errand) :
    let next := (desk.serve Queue.discipline errand).2
    desk.now ≤ next.now ∧
    (next.queue = desk.queue ∨
      (∃ job priority, errand = .enqueue job priority ∧ job ∉ desk.queue.order ∧
        desk.queue.length < desk.queue.capacity ∧
        next.queue = desk.queue.joined job priority desk.now) ∨
      (errand = .dequeue ∧ ∃ job, (desk.serve Queue.discipline errand).1 = .served (some job) ∧
        desk.queue.dequeue? desk.gate = some (job, next.queue, next.gate)) ∨
      ∃ job, errand = .erase job ∧ job ∈ desk.queue.order ∧
        next.queue = desk.queue.without job) := by
  obtain ⟨q, g, now⟩ := desk
  cases errand with
  | enqueue job priority =>
    rcases q.enqueue_cases g job priority now with
      ⟨-, place, heq⟩ | ⟨-, -, heq⟩ | ⟨-, -, -, heq⟩ | ⟨hout, -, hroom, place, heq⟩
    · simp [serve, Queue.discipline, heq]
    · simp [serve, Queue.discipline, heq]
    · simp [serve, Queue.discipline, heq]
    · simp only [serve, Queue.discipline, heq]
      exact ⟨Nat.le_refl _, .inr (.inl ⟨job, priority, rfl, hout, hroom, rfl⟩)⟩
  | dequeue =>
    cases hdequeue : q.dequeue? g with
    | none => simp [serve, Queue.discipline, hdequeue]
    | some taken =>
      obtain ⟨job, queue, gate⟩ := taken
      simp only [serve, Queue.discipline, hdequeue]
      exact ⟨Nat.le_refl _, .inr (.inr (.inl ⟨trivial, job, rfl, rfl⟩))⟩
  | erase job =>
    cases herase : q.erase? job with
    | none => simp [serve, Queue.discipline, herase]
    | some queue =>
      obtain ⟨hin, rfl⟩ := Queue.erase?_eq_some herase
      simp only [serve, Queue.discipline, herase]
      exact ⟨Nat.le_refl _, .inr (.inr (.inr ⟨job, rfl, hin, rfl⟩))⟩
  | acquire job => cases hgate : g.acquire? job <;> simp [serve, hgate]
  | release job => cases hgate : g.release? job <;> simp [serve, hgate]
  | wait time => simp [serve]

theorem neat_serve {desk : Desk Queue} (h : desk.queue.Neat desk.now) (errand : Errand) :
    (desk.serve Queue.discipline errand).2.queue.Neat
      (desk.serve Queue.discipline errand).2.now := by
  obtain ⟨hnow, hcases⟩ := serve_cases desk errand
  refine Queue.Neat.later ?_ hnow
  rcases hcases with hsame | ⟨job, priority, -, hout, hroom, hjoined⟩ | ⟨-, job, -, hdequeue⟩ |
    ⟨job, -, -, herased⟩
  · rw [hsame]
    exact h
  · rw [hjoined]
    exact h.joined hout hroom priority
  · rw [(Queue.dequeue?_eq_some hdequeue).2.2]
    exact h.without job
  · rw [herased]
    exact h.without job

theorem neat_run {desk : Desk Queue} (h : desk.queue.Neat desk.now) (errands : List Errand) :
    (desk.run Queue.discipline errands).2.queue.Neat
      (desk.run Queue.discipline errands).2.now := by
  induction errands generalizing desk with
  | nil => exact h
  | cons errand errands ih => exact ih (neat_serve h errand)

-- There is a slot, and a job waits that has none.
def CanServe (d : Discipline α) (desk : Desk α) : Prop :=
  desk.gate.taken < desk.gate.capacity ∧ ∃ job ∈ d.order desk.queue, job ∉ desk.gate.holders

-- A job is served: it is the first of those that hold no slot, it gets one, and it leaves the
-- queue. All other entries stay and keep their order, and the positions are counted anew.
structure Serves (d : Discipline α) (entries : α → List Entry) (desk next : Desk α) (job : JobId) :
    Prop where
  first : ∃ entry ∈ entries desk.queue, entry.job = job ∧ ∀ other ∈ entries desk.queue,
    other.job ∉ desk.gate.holders → other ≠ entry → entry.Before other
  free : job ∉ desk.gate.holders
  gate : next.gate = { desk.gate with
    taken := desk.gate.taken + 1
    holders := desk.gate.holders ++ [job] }
  kept : (entries next.queue).Perm ((entries desk.queue).filter (fun entry => entry.job != job))
  order : d.order next.queue = (d.order desk.queue).filter (fun other => other != job)
  length : d.length next.queue + 1 = d.length desk.queue
  positions : (d.order next.queue).map (d.position? next.queue) =
    (List.range' 1 (d.length next.queue)).map some
  absent : ∀ other, d.position? next.queue other = none ↔ other ∉ d.order next.queue

-- Nothing is done.
structure Rests (d : Discipline α) (entries : α → List Entry) (desk next : Desk α) : Prop where
  kept : (entries next.queue).Perm (entries desk.queue)
  order : d.order next.queue = d.order desk.queue
  position : ∀ job, d.position? next.queue job = d.position? desk.queue job
  length : d.length next.queue = d.length desk.queue
  gate : next.gate = desk.gate

-- A job is served just when that can be, and otherwise nothing is done.
def ServesIfPossible (d : Discipline α) (entries : α → List Entry) (desk : Desk α) : Prop :=
  let next := (desk.serve d .dequeue).2
  (desk.CanServe d ∧ ∃ job, (desk.serve d .dequeue).1 = .served (some job) ∧
    Serves d entries desk next job) ∨
  (¬ desk.CanServe d ∧ (desk.serve d .dequeue).1 = .served none ∧ Rests d entries desk next)

theorem CanServe.of_shows (hdesk : desk.Shows d e other) :
    desk.CanServe d ↔ other.CanServe e := by
  rw [CanServe, CanServe, hdesk.gate, hdesk.order]

theorem Serves.of_shows {entries : α → List Entry} {listed : β → List Entry}
    (h : Serves e listed other later job) (hdesk : desk.Shows d e other)
    (hnext : next.Shows d e later) (hentries : (entries desk.queue).Perm (listed other.queue))
    (hlater : (entries next.queue).Perm (listed later.queue)) :
    Serves d entries desk next job where
  first := by
    obtain ⟨entry, hentry, hjob, hfirst⟩ := h.first
    refine ⟨entry, hentries.symm.subset hentry, hjob, fun other hother hfree => ?_⟩
    exact hfirst other (hentries.subset hother) (hdesk.gate ▸ hfree)
  free := hdesk.gate ▸ h.free
  gate := by rw [hnext.gate, hdesk.gate, h.gate]
  kept := hlater.trans (h.kept.trans (hentries.symm.filter _))
  order := by rw [hnext.order, hdesk.order, h.order]
  length := by rw [hnext.length, hdesk.length, h.length]
  positions := by
    have hposition : d.position? next.queue = e.position? later.queue := funext hnext.position
    rw [hnext.order, hnext.length, hposition, h.positions]
  absent := fun job => by rw [hnext.position, hnext.order, h.absent]

theorem Rests.of_shows {entries : α → List Entry} {listed : β → List Entry}
    (h : Rests e listed other later) (hdesk : desk.Shows d e other)
    (hnext : next.Shows d e later) (hentries : (entries desk.queue).Perm (listed other.queue))
    (hlater : (entries next.queue).Perm (listed later.queue)) : Rests d entries desk next where
  kept := hlater.trans (h.kept.trans hentries.symm)
  order := by rw [hnext.order, hdesk.order, h.order]
  position := fun job => by rw [hnext.position, hdesk.position, h.position]
  length := by rw [hnext.length, hdesk.length, h.length]
  gate := by rw [hnext.gate, hdesk.gate, h.gate]

-- The first entry of a job without a slot goes before all other such entries.
theorem before_of_find? {q : Queue} {g : Gate} {now : Nat} {entry : Entry} (h : q.Neat now)
    (hfind : q.entries.find? (fun entry => !g.holds entry.job) = some entry) :
    entry.job ∉ g.holders ∧ ∀ other ∈ q.entries, other.job ∉ g.holders → other ≠ entry →
      entry.Before other := by
  obtain ⟨hfree, ahead, behind, hentries, hahead⟩ := List.find?_eq_some_iff_append.mp hfind
  refine ⟨by simpa using hfree, fun other hother hnone hne => ?_⟩
  have hbehind : other ∈ behind := by
    rw [hentries, List.mem_append, List.mem_cons] at hother
    rcases hother with hother | rfl | hother
    · exact absurd (hahead other hother) (by simpa using hnone)
    · exact absurd rfl hne
    · exact hother
  have hlined := h.lined
  rw [hentries, Lined, List.pairwise_append, List.pairwise_cons] at hlined
  refine h.before ?_ ?_ (hlined.2.1.1 other hbehind)
  · rw [hentries]
    exact List.mem_append_right _ List.mem_cons_self
  · rw [hentries]
    exact List.mem_append_right _ (List.mem_cons_of_mem _ hbehind)

theorem servesIfPossible_of_neat {desk : Desk Queue} (h : desk.queue.Neat desk.now) :
    desk.ServesIfPossible Queue.discipline Queue.entries := by
  obtain ⟨q, g, now⟩ := desk
  simp only at h
  cases hfind : q.entries.find? (fun entry => !g.holds entry.job) with
  | none =>
    have hheld : ∀ job ∈ q.order, job ∈ g.holders := by
      intro job hjob
      obtain ⟨entry, hentry, rfl⟩ := Queue.mem_order_iff.mp hjob
      simpa using List.find?_eq_none.mp hfind entry hentry
    have hblocked : ¬ ∃ job ∈ q.order, job ∉ g.holders := by
      rintro ⟨job, hjob, hfree⟩
      exact hfree (hheld job hjob)
    refine .inr ⟨fun hcan => hblocked hcan.2, ?_⟩
    simp only [serve, Queue.discipline, Queue.dequeue?, hfind, true_and]
    exact ⟨List.Perm.refl _, rfl, fun _ => rfl, rfl, rfl⟩
  | some entry =>
    obtain ⟨hfree, hfirst⟩ := before_of_find? h hfind
    have hentry : entry ∈ q.entries := List.mem_of_find?_eq_some hfind
    have hqueued : entry.job ∈ q.order := Queue.mem_order_iff.mpr ⟨entry, hentry, rfl⟩
    cases hgate : g.acquire? entry.job with
    | none =>
      have hfull : g.capacity ≤ g.taken :=
        (Gate.acquire?_eq_none_iff.mp hgate).resolve_left (by simpa using hfree)
      refine .inr ⟨fun hcan => absurd hcan.1 (Nat.not_lt.mpr hfull), ?_⟩
      simp only [serve, Queue.discipline, Queue.dequeue?, hfind, hgate, true_and]
      exact ⟨List.Perm.refl _, rfl, fun _ => rfl, rfl, rfl⟩
    | some gate =>
      obtain ⟨-, hroom, rfl⟩ := Gate.acquire?_eq_some_iff.mp hgate
      refine .inl ⟨⟨hroom, entry.job, hqueued, hfree⟩, entry.job, ?_⟩
      simp only [serve, Queue.discipline, Queue.dequeue?, hfind, hgate, true_and]
      have hnext := h.ordered.without entry.job
      exact
        { first := ⟨entry, hentry, rfl, hfirst⟩
          free := hfree
          gate := rfl
          kept := List.Perm.refl _
          order := q.order_without entry.job
          length := Keyed.length_filter_ne h.ordered.distinct hentry
          positions := Queue.positions_eq hnext.distinct
          absent := fun _ => Queue.position?_eq_none_iff }

-- A queue that is kept with an index does what the list does that it stands for.
theorem servesIfPossible_of_alike {desk : Desk IndexedQueue} {other : Desk Queue}
    (halike : Discipline.Alike IndexedQueue.Indexes desk other)
    (h : other.ServesIfPossible Queue.discipline Queue.entries) :
    desk.ServesIfPossible IndexedQueue.discipline IndexedQueue.heap := by
  obtain ⟨hreply, hnext⟩ := IndexedQueue.simulates_queue.serve halike .dequeue
  have hshows := IndexedQueue.simulates_queue.shows halike
  have hlater := IndexedQueue.simulates_queue.shows hnext
  rcases h with ⟨hcan, job, hserved, hserves⟩ | ⟨hcannot, hserved, hrests⟩
  · refine .inl ⟨(CanServe.of_shows hshows).mpr hcan, job, hreply.trans hserved, ?_⟩
    exact hserves.of_shows hshows hlater halike.queue.heap hnext.queue.heap
  · refine .inr ⟨fun hcan => hcannot ((CanServe.of_shows hshows).mp hcan),
      hreply.trans hserved, ?_⟩
    exact hrests.of_shows hshows hlater halike.queue.heap hnext.queue.heap

end Desk

namespace IndexedQueue

variable {g : Gate} {heap passed : List Entry}

-- One turn of the search for a job to serve: what comes of it, or what is still to be looked at
-- and what has been passed over.
def serveTurn (g : Gate) (heap passed : List Entry) :
    (Option (JobId × Gate) × List Entry) ⊕ (List Entry × List Entry) :=
  match first? heap with
  | none => .inl (none, heap ++ passed)
  | some (entry, others) =>
    if g.holds entry.job then .inr (others, passed ++ [entry])
    else match g.acquire? entry.job with
      | some g => .inl (some (entry.job, g), others ++ passed)
      | none => .inl (none, heap ++ passed)

-- What comes of so many turns, if they are enough.
def serveWithin (g : Gate) :
    Nat → List Entry → List Entry → Option (Option (JobId × Gate) × List Entry)
  | 0, _, _ => none
  | turns + 1, heap, passed => match serveTurn g heap passed with
    | .inl result => some result
    | .inr (heap, passed) => serveWithin g turns heap passed

-- One turn for each entry is enough, and one more to see that there is none left.
theorem serveWithin_eq_serve {turns : Nat} (hturns : heap.length < turns) :
    serveWithin g turns heap passed = some (serve g heap passed) := by
  induction turns generalizing heap passed with
  | zero => exact absurd hturns (Nat.not_lt_zero _)
  | succ turns ih =>
    cases hfirst : first? heap with
    | none =>
      rw [first?_eq_none_iff.mp hfirst, serve]
      rfl
    | some found =>
      obtain ⟨entry, others⟩ := found
      rw [serve_of_first? hfirst]
      simp only [serveWithin, serveTurn, hfirst]
      by_cases hheld : g.holds entry.job = true
      · have hlength := length_first? hfirst
        simp only [hheld, if_true]
        exact ih (by omega)
      · simp only [hheld, Bool.false_eq_true, if_false]
        cases g.acquire? entry.job <;> rfl

end IndexedQueue

-- After whatever errands, to the queue and at its gate, and whether the queue is kept as a heap
-- with an index or as a list of entries: a job that is asked for is served if there is a slot and
-- a job without one, and then it is the first of these; otherwise all stays as it is. The search
-- for it ends, whatever is in the heap and whoever holds slots.
theorem servesIfPossible_of_run (capacity now : Nat) (gate : Gate) (errands : List Errand) :
    let kept := (Desk.run IndexedQueue.discipline ⟨.ofCapacity capacity, gate, now⟩ errands).2
    let listed := (Desk.run Queue.discipline ⟨.ofCapacity capacity, gate, now⟩ errands).2
    kept.ServesIfPossible IndexedQueue.discipline IndexedQueue.heap ∧
      listed.ServesIfPossible Queue.discipline Queue.entries ∧
      ∀ (g : Gate) (heap passed : List Entry),
        IndexedQueue.serveWithin g (heap.length + 1) heap passed =
          some (IndexedQueue.serve g heap passed) := by
  intro kept listed
  have hneat : listed.queue.Neat listed.now :=
    Desk.neat_run (Queue.neat_ofCapacity capacity now) errands
  have hlisted := Desk.servesIfPossible_of_neat hneat
  obtain ⟨-, halike⟩ := IndexedQueue.simulates_queue.run
    (.init gate (IndexedQueue.indexes_ofCapacity capacity now)) errands
  refine ⟨Desk.servesIfPossible_of_alike halike hlisted, hlisted, fun g heap passed => ?_⟩
  exact IndexedQueue.serveWithin_eq_serve (Nat.lt_succ_self _)

end Foreman
