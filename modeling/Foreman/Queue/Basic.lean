import Foreman.Fault
import Foreman.Gate.Basic

namespace Foreman

-- A job in the queue. Tickets are handed out in the order of arrival.
structure Entry where
  job : JobId
  priority : Int
  since : Nat
  ticket : Nat
  deriving DecidableEq, Repr, Inhabited

namespace Entry

-- Lower priorities go first. Within one priority whoever came earlier goes first.
def precedes (a b : Entry) : Bool :=
  a.priority < b.priority ||
    (a.priority == b.priority &&
      (a.since < b.since || (a.since == b.since && a.ticket < b.ticket)))

end Entry

structure Queue where
  capacity : Nat
  entries : List Entry
  issued : Nat
  deriving DecidableEq, Repr, Inhabited

namespace Queue

def ofCapacity (n : Nat) : Queue := ⟨n, [], 0⟩

def length (q : Queue) : Nat := q.entries.length

def order (q : Queue) : List JobId := q.entries.map Entry.job

def isSaturated (q : Queue) : Bool := q.capacity ≤ q.length

def position? (q : Queue) (job : JobId) : Option Nat :=
  (q.order.findIdx? (· == job)).map (· + 1)

def contains (q : Queue) (job : JobId) : Bool := q.order.contains job

def place (e : Entry) : List Entry → List Entry
  | [] => [e]
  | x :: rest => if x.precedes e then x :: place e rest else e :: x :: rest

-- A new entry at its place. A job in the queue keeps the place it has, and a job that
-- holds a slot may not wait for a second one.
def enqueue (q : Queue) (g : Gate) (job : JobId) (priority : Int) (now : Nat) :
    Except Fault (Nat × Queue) :=
  match q.position? job with
  | some place => .ok (place, q)
  | none =>
    if g.holds job then .error (.slotHeld job)
    else if q.isSaturated then .error (.queueFull q.capacity)
    else
      let next := { q with
        entries := place ⟨job, priority, now, q.issued⟩ q.entries
        issued := q.issued + 1 }
      .ok ((next.position? job).getD next.length, next)

-- The first job that holds no slot leaves the queue together with a slot, if there is one.
-- Those that hold a slot are passed over and keep their places.
def dequeue? (q : Queue) (g : Gate) : Option (JobId × Queue × Gate) :=
  match q.entries.find? (fun e => !g.holds e.job) with
  | none => none
  | some e => match g.acquire? e.job with
    | none => none
    | some g => some (e.job, { q with entries := q.entries.filter (fun x => x.job != e.job) }, g)

def erase? (q : Queue) (job : JobId) : Option Queue :=
  if q.contains job then some { q with entries := q.entries.filter (fun e => e.job != job) }
  else none

theorem length_place (e : Entry) (entries : List Entry) :
    (place e entries).length = entries.length + 1 := by
  induction entries with
  | nil => rfl
  | cons x rest ih =>
    unfold place
    split
    · simp [ih]
    · simp

theorem mem_place {x e : Entry} {entries : List Entry} :
    x ∈ place e entries ↔ x = e ∨ x ∈ entries := by
  induction entries with
  | nil => simp [place]
  | cons y rest ih =>
    unfold place
    split
    · simp only [List.mem_cons, ih]
      constructor
      · rintro (h | h | h) <;> simp [h]
      · rintro (h | h | h) <;> simp [h]
    · simp

theorem erase?_eq_none_iff {q : Queue} {job : JobId} :
    q.erase? job = none ↔ q.contains job = false := by
  unfold erase?
  split <;> simp_all

end Queue

end Foreman
