import Foreman.Proofs.Queue.Order

namespace Foreman

-- What can be done with a queue beside a gate and what can be seen of it, whatever it is made of.
structure Discipline (α : Type) where
  enqueue : α → Gate → JobId → Int → Nat → Except Fault (Nat × α)
  dequeue : α → Gate → Option (JobId × Gate) × α
  erase? : α → JobId → Option α
  order : α → List JobId
  position? : α → JobId → Option Nat
  length : α → Nat

-- What happens at a queue. Others get slots from its gate and give them back, and the clock goes
-- on, but never back.
inductive Errand where
  | enqueue (job : JobId) (priority : Int)
  | dequeue
  | erase (job : JobId)
  | acquire (job : JobId)
  | release (job : JobId)
  | wait (time : Nat)
  deriving DecidableEq, Repr

inductive Reply where
  | place (n : Nat)
  | refused (fault : Fault)
  | served (job : Option JobId)
  | done (success : Bool)
  deriving DecidableEq, Repr

structure Desk (α : Type) where
  queue : α
  gate : Gate
  now : Nat

namespace Desk

variable {α β : Type}

def serve (d : Discipline α) (desk : Desk α) : Errand → Reply × Desk α
  | .enqueue job priority => match d.enqueue desk.queue desk.gate job priority desk.now with
    | .ok (place, queue) => (.place place, { desk with queue := queue })
    | .error fault => (.refused fault, desk)
  | .dequeue => match d.dequeue desk.queue desk.gate with
    | (some (job, gate), queue) => (.served (some job), { desk with queue := queue, gate := gate })
    | (none, queue) => (.served none, { desk with queue := queue })
  | .erase job => match d.erase? desk.queue job with
    | some queue => (.done true, { desk with queue := queue })
    | none => (.done false, desk)
  | .acquire job => match desk.gate.acquire? job with
    | some gate => (.done true, { desk with gate := gate })
    | none => (.done false, desk)
  | .release job => match desk.gate.release? job with
    | some gate => (.done true, { desk with gate := gate })
    | none => (.done false, desk)
  | .wait time => (.done true, { desk with now := desk.now + time })

def run (d : Discipline α) (desk : Desk α) : List Errand → List Reply × Desk α
  | [] => ([], desk)
  | errand :: errands =>
    let (reply, desk) := desk.serve d errand
    let (replies, desk) := run d desk errands
    (reply :: replies, desk)

-- Nobody who looks at the two desks can tell them apart.
structure Shows (d : Discipline α) (e : Discipline β) (desk : Desk α) (other : Desk β) :
    Prop where
  order : d.order desk.queue = e.order other.queue
  position : ∀ job, d.position? desk.queue job = e.position? other.queue job
  length : d.length desk.queue = e.length other.queue
  gate : desk.gate = other.gate

theorem Shows.trans {γ : Type} {d : Discipline α} {e : Discipline β} {f : Discipline γ}
    {desk : Desk α} {other : Desk β} {third : Desk γ} (h : desk.Shows d e other)
    (hother : other.Shows e f third) : desk.Shows d f third where
  order := h.order.trans hother.order
  position := fun job => (h.position job).trans (hother.position job)
  length := h.length.trans hother.length
  gate := h.gate.trans hother.gate

end Desk

namespace Discipline

variable {α β : Type} {d : Discipline α} {e : Discipline β} {related : Nat → α → β → Prop}

-- Queues that are related look alike, and whatever is done with both of them has the same outcome
-- and leaves them related. How they are related may depend on the time.
structure Simulates (d : Discipline α) (e : Discipline β) (related : Nat → α → β → Prop) :
    Prop where
  enqueue : ∀ {now q r}, related now q r → ∀ g job priority,
    (∃ place q' r', d.enqueue q g job priority now = .ok (place, q') ∧
      e.enqueue r g job priority now = .ok (place, r') ∧ related now q' r') ∨
    ∃ fault, d.enqueue q g job priority now = .error fault ∧
      e.enqueue r g job priority now = .error fault
  dequeue : ∀ {now q r}, related now q r → ∀ g,
    (d.dequeue q g).1 = (e.dequeue r g).1 ∧ related now (d.dequeue q g).2 (e.dequeue r g).2
  erase : ∀ {now q r}, related now q r → ∀ job,
    (∃ q' r', d.erase? q job = some q' ∧ e.erase? r job = some r' ∧ related now q' r') ∨
      d.erase? q job = none ∧ e.erase? r job = none
  later : ∀ {now next q r}, related now q r → now ≤ next → related next q r
  order : ∀ {now q r}, related now q r → d.order q = e.order r
  position : ∀ {now q r}, related now q r → ∀ job, d.position? q job = e.position? r job
  length : ∀ {now q r}, related now q r → d.length q = e.length r

-- Two desks at which the same has happened.
structure Alike (related : Nat → α → β → Prop) (desk : Desk α) (other : Desk β) : Prop where
  queue : related desk.now desk.queue other.queue
  gate : desk.gate = other.gate
  now : desk.now = other.now

theorem Alike.init {q : α} {r : β} {now : Nat} (gate : Gate) (h : related now q r) :
    Alike related ⟨q, gate, now⟩ ⟨r, gate, now⟩ := ⟨h, rfl, rfl⟩

namespace Simulates

variable (h : Simulates d e related) {desk : Desk α} {other : Desk β}

include h

theorem serve (halike : Alike related desk other) (errand : Errand) :
    (desk.serve d errand).1 = (other.serve e errand).1 ∧
      Alike related (desk.serve d errand).2 (other.serve e errand).2 := by
  obtain ⟨q, g, now⟩ := desk
  obtain ⟨r, g', now'⟩ := other
  obtain ⟨hqueue, hgate, hnow⟩ := halike
  simp only at hqueue hgate hnow
  subst hgate hnow
  cases errand with
  | enqueue job priority =>
    rcases h.enqueue hqueue g job priority with
      ⟨place, q', r', hd, he, hnext⟩ | ⟨fault, hd, he⟩
    · simp only [Desk.serve, hd, he, true_and]
      exact ⟨hnext, rfl, rfl⟩
    · simp only [Desk.serve, hd, he, true_and]
      exact ⟨hqueue, rfl, rfl⟩
  | dequeue =>
    obtain ⟨hsame, hnext⟩ := h.dequeue hqueue g
    rcases hd : d.dequeue q g with ⟨taken, q'⟩
    rcases he : e.dequeue r g with ⟨taken', r'⟩
    rw [hd, he] at hsame hnext
    simp only at hsame hnext
    subst hsame
    cases taken with
    | none =>
      simp only [Desk.serve, hd, he, true_and]
      exact ⟨hnext, rfl, rfl⟩
    | some found =>
      simp only [Desk.serve, hd, he, true_and]
      exact ⟨hnext, rfl, rfl⟩
  | erase job =>
    rcases h.erase hqueue job with ⟨q', r', hd, he, hnext⟩ | ⟨hd, he⟩
    · simp only [Desk.serve, hd, he, true_and]
      exact ⟨hnext, rfl, rfl⟩
    · simp only [Desk.serve, hd, he, true_and]
      exact ⟨hqueue, rfl, rfl⟩
  | acquire job =>
    cases hgate : g.acquire? job with
    | none =>
      simp only [Desk.serve, hgate, true_and]
      exact ⟨hqueue, rfl, rfl⟩
    | some g' =>
      simp only [Desk.serve, hgate, true_and]
      exact ⟨hqueue, rfl, rfl⟩
  | release job =>
    cases hgate : g.release? job with
    | none =>
      simp only [Desk.serve, hgate, true_and]
      exact ⟨hqueue, rfl, rfl⟩
    | some g' =>
      simp only [Desk.serve, hgate, true_and]
      exact ⟨hqueue, rfl, rfl⟩
  | wait time =>
    simp only [Desk.serve, true_and]
    exact ⟨h.later hqueue (Nat.le_add_right now time), rfl, rfl⟩

theorem run (halike : Alike related desk other) (errands : List Errand) :
    (desk.run d errands).1 = (other.run e errands).1 ∧
      Alike related (desk.run d errands).2 (other.run e errands).2 := by
  induction errands generalizing desk other with
  | nil => exact ⟨rfl, halike⟩
  | cons errand errands ih =>
    obtain ⟨hreply, hnext⟩ := h.serve halike errand
    obtain ⟨hreplies, hlast⟩ := ih hnext
    exact ⟨List.cons_eq_cons.mpr ⟨hreply, hreplies⟩, hlast⟩

theorem shows (halike : Alike related desk other) : desk.Shows d e other where
  order := h.order halike.queue
  position := h.position halike.queue
  length := h.length halike.queue
  gate := halike.gate

end Simulates

end Discipline

-- The plain list that a queue stands for: jobs and their priorities, the lowest priority first, and
-- within one priority as they came.
structure Roster where
  capacity : Nat
  lines : List (JobId × Int)

namespace Roster

def ofCapacity (n : Nat) : Roster := ⟨n, []⟩

def order (r : Roster) : List JobId := r.lines.map Prod.fst

def position? (r : Roster) (job : JobId) : Option Nat :=
  (r.order.findIdx? (· == job)).map (· + 1)

def length (r : Roster) : Nat := r.lines.length

-- A job that is listed keeps its line, whatever the priority. A new one is listed behind all those
-- of its own priority or a lower one.
def enqueue (r : Roster) (g : Gate) (job : JobId) (priority : Int) : Except Fault (Nat × Roster) :=
  match r.position? job with
  | some place => .ok (place, r)
  | none =>
    if g.holds job then .error (.slotHeld job)
    else if r.capacity ≤ r.length then .error (.queueFull r.capacity)
    else
      let ahead := r.lines.filter (fun line => line.2 ≤ priority)
      let behind := r.lines.filter (fun line => priority < line.2)
      .ok (ahead.length + 1, { r with lines := ahead ++ (job, priority) :: behind })

def without (r : Roster) (job : JobId) : Roster :=
  { r with lines := r.lines.filter (fun line => line.1 != job) }

def dequeue (r : Roster) (g : Gate) : Option (JobId × Gate) × Roster :=
  match r.lines.find? (fun line => !g.holds line.1) with
  | none => (none, r)
  | some (job, _) => match g.acquire? job with
    | none => (none, r)
    | some gate => (some (job, gate), r.without job)

def erase? (r : Roster) (job : JobId) : Option Roster :=
  if job ∈ r.order then some (r.without job) else none

def discipline : Discipline Roster where
  enqueue r g job priority _ := r.enqueue g job priority
  dequeue := dequeue
  erase? := erase?
  order := order
  position? := position?
  length := length

-- What is listed is in order of priority, each job once, and not more of them than there is room
-- for. Their positions are the numbers from 1 on, and no other job has one.
structure InOrder (r : Roster) (capacity : Nat) : Prop where
  sorted : r.lines.Pairwise (fun a b => a.2 ≤ b.2)
  distinct : r.order.Nodup
  bounded : r.length ≤ capacity
  positions : r.order.map r.position? = (List.range' 1 r.length).map some
  absent : ∀ job, r.position? job = none ↔ job ∉ r.order

theorem capacity_serve (desk : Desk Roster) (errand : Errand) :
    (desk.serve discipline errand).2.queue.capacity = desk.queue.capacity := by
  cases errand <;> simp only [Desk.serve, discipline, enqueue, dequeue, erase?]
  case enqueue job priority => grind
  case dequeue => grind [without]
  case erase job => grind [without]
  case acquire job => split <;> rfl
  case release job => split <;> rfl

theorem capacity_run (desk : Desk Roster) (errands : List Errand) :
    (desk.run discipline errands).2.queue.capacity = desk.queue.capacity := by
  induction errands generalizing desk with
  | nil => rfl
  | cons errand errands ih => exact (ih _).trans (capacity_serve desk errand)

end Roster

namespace Queue

variable {q : Queue} {r : Roster} {now : Nat} {g : Gate} {job : JobId} {priority : Int}

def discipline : Discipline Queue where
  enqueue := enqueue
  dequeue q g := match q.dequeue? g with
    | some (job, queue, gate) => (some (job, gate), queue)
    | none => (none, q)
  erase? := erase?
  order := order
  position? := position?
  length := length

def line (entry : Entry) : JobId × Int := (entry.job, entry.priority)

-- The queue is in order, and the list says of it what it says itself.
structure Listed (now : Nat) (q : Queue) (r : Roster) : Prop where
  ordered : q.Ordered now
  capacity : q.capacity = r.capacity
  lines : r.lines = q.entries.map line

namespace Listed

theorem order_eq (h : Listed now q r) : q.order = r.order := by
  simp [order, Roster.order, h.lines, line, Function.comp_def]

theorem position?_eq (h : Listed now q r) (job : JobId) : q.position? job = r.position? job := by
  simp only [position?, Roster.position?, h.order_eq]

theorem length_eq (h : Listed now q r) : q.length = r.length := by
  simp [length, Roster.length, h.lines]

theorem without (h : Listed now q r) (job : JobId) :
    Listed now (q.without job) (r.without job) where
  ordered := h.ordered.without job
  capacity := h.capacity
  lines := by
    simp only [Roster.without, Queue.without, h.lines, List.filter_map]
    rfl

end Listed

-- The position of an entry is one more than the number of those ahead of it.
theorem position?_of_split {ahead behind : List Entry} {entry : Entry}
    (hentries : q.entries = ahead ++ entry :: behind) (hout : ∀ other ∈ ahead, other.job ≠ entry.job) :
    q.position? entry.job = some (ahead.length + 1) := by
  have hnone : (ahead.map Entry.job).findIdx? (· == entry.job) = none := by
    simpa using hout
  simp [position?, order, hentries, List.findIdx?_append, hnone, List.findIdx?_cons]

theorem Listed.joined (h : Listed now q r) (hout : job ∉ q.order) (hroom : q.length < q.capacity)
    (priority : Int) :
    let ahead := r.lines.filter (fun line => line.2 ≤ priority)
    let behind := r.lines.filter (fun line => priority < line.2)
    Listed now (q.joined job priority now) { r with lines := ahead ++ (job, priority) :: behind } ∧
      (q.joined job priority now).position? job = some (ahead.length + 1) := by
  obtain ⟨ahead, behind, hentries, hplace, hahead, hbehind⟩ := h.ordered.joined_split job priority
  have hfirst : r.lines.filter (fun line => line.2 ≤ priority) = ahead.map line := by
    rw [h.lines, hentries, List.map_append, List.filter_append, List.filter_eq_self.mpr,
      List.filter_eq_nil_iff.mpr, List.append_nil]
    · simpa [line] using hbehind
    · simpa [line] using hahead
  have hlast : r.lines.filter (fun line => priority < line.2) = behind.map line := by
    rw [h.lines, hentries, List.map_append, List.filter_append, List.filter_eq_nil_iff.mpr,
      List.filter_eq_self.mpr, List.nil_append]
    · simpa [line] using hbehind
    · simpa [line] using hahead
  refine ⟨⟨h.ordered.joined hout hroom priority, h.capacity, ?_⟩, ?_⟩
  · simp only [hfirst, hlast, hplace, List.map_append, List.map_cons]
    rfl
  · rw [hfirst, List.length_map]
    refine position?_of_split hplace fun other hother he => hout ?_
    exact mem_order_iff.mpr ⟨other, hentries ▸ List.mem_append_left _ hother, he⟩

theorem simulates_roster : discipline.Simulates Roster.discipline Listed where
  enqueue := by
    intro now q r h g job priority
    simp only [discipline, Roster.discipline, enqueue, Roster.enqueue, h.position?_eq]
    cases hposition : r.position? job with
    | some place => exact .inl ⟨place, q, r, rfl, rfl, h⟩
    | none =>
      have hout : job ∉ q.order := position?_eq_none_iff.mp ((h.position?_eq job).trans hposition)
      by_cases hheld : g.holds job = true
      · exact .inr ⟨_, if_pos hheld, if_pos hheld⟩
      · by_cases hfull : q.capacity ≤ q.length
        · have hsame : r.capacity ≤ r.length := h.capacity ▸ h.length_eq ▸ hfull
          refine .inr ⟨.queueFull q.capacity, ?_, ?_⟩
          · simp [hheld, isSaturated, hfull]
          · simp [hheld, hsame, h.capacity]
        · have hnot : ¬ r.capacity ≤ r.length := h.capacity ▸ h.length_eq ▸ hfull
          obtain ⟨hnext, hplace⟩ := h.joined hout (Nat.lt_of_not_le hfull) priority
          refine .inl ⟨(r.lines.filter (fun line => line.2 ≤ priority)).length + 1,
            q.joined job priority now, _, ?_, ?_, hnext⟩
          · rw [if_neg hheld, if_neg (by simp [isSaturated, hfull])]
            simp only [joined] at hplace
            simp only [joined, hplace, Option.getD_some]
          · rw [if_neg hheld, if_neg hnot]
  dequeue := by
    intro now q r h g
    have hfind : r.lines.find? (fun line => !g.holds line.1) =
        (q.entries.find? (fun entry => !g.holds entry.job)).map line := by
      rw [h.lines, List.find?_map]
      rfl
    simp only [discipline, Roster.discipline, dequeue?, Roster.dequeue, hfind]
    cases q.entries.find? (fun entry => !g.holds entry.job) with
    | none => exact ⟨rfl, h⟩
    | some entry =>
      simp only [Option.map_some, line]
      cases g.acquire? entry.job with
      | none => exact ⟨rfl, h⟩
      | some gate => exact ⟨rfl, h.without entry.job⟩
  erase := by
    intro now q r h job
    simp only [discipline, Roster.discipline, erase?, Roster.erase?]
    by_cases hin : job ∈ r.order
    · refine .inl ⟨q.without job, r.without job, ?_, if_pos hin, h.without job⟩
      rw [if_pos (contains_iff.mpr (h.order_eq ▸ hin))]
      rfl
    · refine .inr ⟨?_, if_neg hin⟩
      rw [if_neg (fun hmem => hin (h.order_eq ▸ contains_iff.mp hmem))]
  later := fun h hle => { h with ordered := h.ordered.later hle }
  order := Listed.order_eq
  position := Listed.position?_eq
  length := Listed.length_eq

-- In a list without repetitions each position is found again.
theorem map_findIdx?_self {jobs : List JobId} (hjobs : jobs.Nodup) :
    jobs.map (fun job => (jobs.findIdx? (· == job)).map (· + 1)) =
      (List.range' 1 jobs.length).map some := by
  apply List.ext_getElem
  · simp
  · intro i hi _
    rw [List.length_map] at hi
    simp only [List.getElem_map, List.getElem_range', Nat.one_mul]
    have hfound : jobs.findIdx? (· == jobs[i]) = some i := by
      rw [List.findIdx?_eq_some_iff_getElem]
      refine ⟨hi, by simp, fun k hk => ?_⟩
      have hne : jobs[k] ≠ jobs[i] := fun he =>
        absurd ((List.Nodup.getElem_inj_iff hjobs).mp he) (Nat.ne_of_lt hk)
      simpa using hne
    rw [hfound, Option.map_some, Nat.add_comm]

theorem listed_ofCapacity (n now : Nat) : Listed now (ofCapacity n) (.ofCapacity n) where
  ordered := ordered_ofCapacity n now
  capacity := rfl
  lines := rfl

theorem Listed.inOrder (h : Listed now q r) : r.InOrder r.capacity where
  sorted := by
    rw [h.lines, List.pairwise_map]
    exact h.ordered.sorted
  distinct := h.order_eq ▸ h.ordered.distinct
  bounded := h.capacity ▸ h.length_eq ▸ h.ordered.bounded
  positions := by
    have hlength : r.length = r.order.length := (List.length_map Prod.fst).symm
    rw [hlength]
    exact map_findIdx?_self (h.order_eq ▸ h.ordered.distinct)
  absent := fun job => by
    rw [← h.position?_eq, ← h.order_eq]
    exact position?_eq_none_iff

end Queue

end Foreman
