import Foreman.Queue.Basic

namespace Foreman

-- A queue as it is kept, so that asking for a place is cheap: the entries are in a heap, in no
-- particular order, and beside it stands an index with the place of each job. Places are read off
-- the index alone, and jobs are served from the heap alone.
structure IndexedQueue where
  capacity : Nat
  heap : List Entry
  index : List (JobId × Nat)
  issued : Nat
  deriving Repr, Inhabited

namespace IndexedQueue

def ofCapacity (n : Nat) : IndexedQueue := ⟨n, [], [], 0⟩

-- The entry that goes first, and the heap without it.
def first? : List Entry → Option (Entry × List Entry)
  | [] => none
  | entry :: heap => match first? heap with
    | none => some (entry, [])
    | some (least, others) =>
      if least.precedes entry then some (least, entry :: others) else some (entry, heap)

def look (index : List (JobId × Nat)) (job : JobId) : Option Nat :=
  (index.find? (fun line => line.1 == job)).map Prod.snd

-- A job has one line in the index. A new one takes the place of an old one.
def note (index : List (JobId × Nat)) (line : JobId × Nat) : List (JobId × Nat) :=
  index.filter (fun other => other.1 != line.1) ++ [line]

def sorted (heap : List Entry) : List Entry := heap.foldr Queue.place []

-- The index made anew from what is in the heap.
def reindexed (q : IndexedQueue) : IndexedQueue :=
  { q with index := ((sorted q.heap).zipIdx.map fun (entry, i) => (entry.job, i + 1)).foldl note [] }

def length (q : IndexedQueue) : Nat := q.heap.length

def position? (q : IndexedQueue) (job : JobId) : Option Nat := look q.index job

def order (q : IndexedQueue) : List JobId :=
  (q.index.mergeSort (fun a b => a.2 ≤ b.2)).map Prod.fst

def enqueue (q : IndexedQueue) (g : Gate) (job : JobId) (priority : Int) (now : Nat) :
    Except Fault (Nat × IndexedQueue) :=
  match q.position? job with
  | some place => .ok (place, q)
  | none =>
    if g.holds job then .error (.slotHeld job)
    else if q.capacity ≤ q.length then .error (.queueFull q.capacity)
    else
      let next := { q with
        heap := ⟨job, priority, now, q.issued⟩ :: q.heap
        issued := q.issued + 1 }.reindexed
      .ok ((next.position? job).getD next.length, next)

theorem length_first? {heap others : List Entry} {least : Entry}
    (h : first? heap = some (least, others)) : heap.length = others.length + 1 := by
  induction heap generalizing least others with
  | nil => cases h
  | cons entry heap ih =>
    unfold first? at h
    split at h
    · rename_i hnone
      obtain ⟨rfl, rfl⟩ := Prod.mk.inj (Option.some_inj.mp h)
      cases heap with
      | nil => rfl
      | cons next heap =>
        unfold first? at hnone
        split at hnone
        · cases hnone
        · split at hnone <;> cases hnone
    · rename_i found rest hsome
      split at h
      · obtain ⟨rfl, rfl⟩ := Prod.mk.inj (Option.some_inj.mp h)
        simp [ih hsome]
      · obtain ⟨rfl, rfl⟩ := Prod.mk.inj (Option.some_inj.mp h)
        simp

-- Entries are taken off the heap as long as their jobs hold slots. The first other one is served
-- if there is a slot for it. Whatever was only passed over is put back.
def serve (g : Gate) (heap passed : List Entry) : Option (JobId × Gate) × List Entry :=
  match _ : first? heap with
  | none => (none, heap ++ passed)
  | some (entry, others) =>
    if g.holds entry.job then serve g others (passed ++ [entry])
    else match g.acquire? entry.job with
      | some g => (some (entry.job, g), others ++ passed)
      | none => (none, heap ++ passed)
termination_by heap.length
decreasing_by
  rw [length_first? ‹first? heap = some (entry, others)›]
  exact Nat.lt_succ_self _

-- The index is made anew only if a job has left the queue.
def dequeue (q : IndexedQueue) (g : Gate) : Option (JobId × Gate) × IndexedQueue :=
  match serve g q.heap [] with
  | (none, heap) => (none, { q with heap := heap })
  | (some taken, heap) => (some taken, { q with heap := heap }.reindexed)

def erase? (q : IndexedQueue) (job : JobId) : Option IndexedQueue :=
  if (q.position? job).isSome then
    some { q with
      heap := q.heap.filter (fun entry => entry.job != job)
      index := q.index.filter (fun line => line.1 != job) }.reindexed
  else none

end IndexedQueue

end Foreman
