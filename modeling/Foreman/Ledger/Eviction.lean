import Foreman.Ledger.Basic
import Foreman.Registry

namespace Foreman

-- One who is told of each job that is evicted, and looks at the ledger as it is then. What it makes
-- of that is its own part of some world.
abbrev Listener (World : Type) := Ledger → JobId → World → World

-- How far an eviction has come.
structure Eviction (World : Type) where
  count : Nat
  ledger : Ledger
  world : World

namespace Ledger

-- A job leaves if its record is such as it has to be at that moment.
def removeIf (l : Ledger) (id : JobId) (p : Job → Bool) : Option Ledger :=
  match l.get? id with
  | none => none
  | some job =>
    if p job then some ⟨l.jobs.filter (fun other => other.id != id)⟩ else none

def notify {World : Type} (l : Ledger) (listeners : List (Listener World)) (id : JobId)
    (w : World) : World :=
  listeners.foldl (fun w listener => listener l id w) w

def evictOne {World : Type} (cutoff : Nat) (listeners : List (Listener World))
    (e : Eviction World) (id : JobId) : Eviction World :=
  match e.ledger.removeIf id (isExpired cutoff) with
  | none => e
  | some l => ⟨e.count + 1, l, l.notify listeners id e.world⟩

-- The jobs that a scan has found are looked at again one by one, in the order of the scan. The
-- listeners hear of each that is removed before the next one is looked at.
def evictEach {World : Type} (l : Ledger) (cutoff : Nat) (listeners : List (Listener World))
    (found : List JobId) (w : World) : Eviction World :=
  found.foldl (evictOne cutoff listeners) ⟨0, l, w⟩

end Ledger

namespace Registry

-- The registry as a listener.
def releasing : Listener Registry := fun _ id r => r.drop id

end Registry

end Foreman
