import Foreman.Job.Identity
import Foreman.Job.Status
import Foreman.Span

namespace Foreman

structure AttemptRecord where
  job : JobId
  attempt : Nat
  outcome : Outcome
  duration : Span
  recordedAt : Nat
  deriving DecidableEq, Repr, Inhabited

-- All attempts that were ever reported, the oldest first, and those of them that can still be
-- seen, which are no more than the capacity.
structure Audit where
  capacity : Nat
  kept : List AttemptRecord
  reported : List AttemptRecord
  deriving DecidableEq, Repr, Inhabited

namespace Audit

def ofCapacity (n : Nat) : Audit := ⟨n, [], []⟩

-- Where there is no room left the oldest record goes. Where there never was any, nothing is kept.
def keep (a : Audit) (r : AttemptRecord) : List AttemptRecord :=
  if a.capacity = 0 then a.kept
  else if a.capacity ≤ a.kept.length then a.kept.tail ++ [r]
  else a.kept ++ [r]

def push (a : Audit) (r : AttemptRecord) : Audit :=
  { a with kept := a.keep r, reported := a.reported ++ [r] }

def records (a : Audit) : List AttemptRecord := a.kept

def recordsOf (a : Audit) (job : JobId) : List AttemptRecord :=
  a.records.filter (fun r => r.job == job)

end Audit

end Foreman
