import Foreman.Engine.Dispatch

namespace Foreman.Engine

-- Someone who works in the background, one turn after the other. Whoever is told to go does no
-- more work, and is gone with the next turn.
structure Worker (α : Type) where
  tag : Nat
  duty : α
  aborted : Bool
  deriving DecidableEq, Repr

-- All the workers for one kind of duty. The handle is on the one who has not been told to go.
structure Crew (α : Type) where
  workers : List (Worker α)
  handle : Option Nat
  hired : Nat
  deriving Repr

namespace Crew

variable {α : Type}

def empty : Crew α := ⟨[], none, 0⟩

def worker? (c : Crew α) (tag : Nat) : Option (Worker α) :=
  c.workers.find? (fun worker => worker.tag == tag)

def isGone (c : Crew α) (tag : Nat) : Bool := (c.worker? tag).isNone

def isAtWork (c : Crew α) : Bool := c.handle.any (fun tag => !c.isGone tag)

-- A new worker is not needed while there is one at work.
def hire (c : Crew α) (duty : α) : Crew α :=
  if c.isAtWork then c
  else ⟨c.workers ++ [⟨c.hired, duty, false⟩], some c.hired, c.hired + 1⟩

def dismiss (c : Crew α) : Crew α :=
  { c with
    workers := c.workers.map fun worker =>
      if c.handle = some worker.tag then { worker with aborted := true } else worker
    handle := none }

def leave (c : Crew α) (tag : Nat) : Crew α :=
  { c with workers := c.workers.filter (fun worker => worker.tag != tag) }

def assign (c : Crew α) (tag : Nat) (duty : α) : Crew α :=
  { c with workers := c.workers.map fun worker =>
      if worker.tag = tag then { worker with duty := duty } else worker }

def duty? (c : Crew α) : Option α := c.handle.bind fun tag => (c.worker? tag).map Worker.duty

end Crew

-- How far the one who polls has come: asleep, about to look at the queue, or with a job in hand
-- that has left the queue and has no attempt yet.
inductive Point where
  | asleep (due : Nat)
  | looking
  | handing (job : JobId)
  deriving DecidableEq, Repr

namespace State

def proceed (s : State) : Point → Point × State
  | .asleep due => (.asleep due, s)
  | .looking => match s.takeNext with
    | none => (.asleep (Span.wakeAfter s.now s.config.poll.toMillis), s)
    | some (job, s) => (.handing job, s)
  | .handing job => (.looking, s.spawn job true)

def proceedWithin : Nat → Point → State → Point × State
  | 0, point, s => (point, s)
  | fuel + 1, point, s => proceedWithin fuel (s.proceed point).1 (s.proceed point).2

-- One who wakes up goes on to the next sleep without a break. There are two steps for each job in
-- the queue, and one to fall asleep.
def turn (s : State) : Point → Point × State
  | .asleep due => if due ≤ s.now then proceedWithin (2 * s.queue.length + 1) .looking s
    else (.asleep due, s)
  | point => proceedWithin (2 * s.queue.length + 2) point s

-- Whoever goes gives back the slot of a job in hand.
def letGo (s : State) : Point → State
  | .handing job => s.freeSlot job
  | .asleep _ | .looking => s

end State

end Foreman.Engine
