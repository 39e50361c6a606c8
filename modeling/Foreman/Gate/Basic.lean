import Foreman.Job.Identity

namespace Foreman

-- A bounded supply of slots. `taken` counts the slots given out and `holders`
-- names the jobs that have them, in the order in which they got them.
structure Gate where
  capacity : Nat
  taken : Nat
  holders : List JobId
  deriving DecidableEq, Repr, Inhabited

namespace Gate

def ofCapacity (n : Nat) : Gate := ⟨n, 0, []⟩

def free (g : Gate) : Nat := g.capacity - g.taken

def holds (g : Gate) (job : JobId) : Bool := g.holders.contains job

def acquire? (g : Gate) (job : JobId) : Option Gate :=
  if g.holds job then none
  else if g.capacity ≤ g.taken then none
  else some { g with taken := g.taken + 1, holders := g.holders ++ [job] }

def release? (g : Gate) (job : JobId) : Option Gate :=
  if g.holds job then some { g with taken := g.taken - 1, holders := g.holders.erase job }
  else none

theorem acquire?_eq_none_iff {g : Gate} {job : JobId} :
    g.acquire? job = none ↔ g.holds job = true ∨ g.capacity ≤ g.taken := by
  unfold acquire?
  split
  · simp_all
  · split <;> simp_all

theorem release?_eq_none_iff {g : Gate} {job : JobId} :
    g.release? job = none ↔ g.holds job = false := by
  unfold release?
  split <;> simp_all

end Gate

end Foreman
