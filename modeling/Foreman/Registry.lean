import Foreman.Files.Path
import Foreman.Job.Identity

namespace Foreman

-- The files that jobs lay claim to. A job with no files of its own is not in the list,
-- and of several spellings of one file a job keeps the first.
structure Registry where
  home : List String
  claims : List (JobId × List Path)
  deriving DecidableEq, Repr, Inhabited

namespace Registry

def ofHome (home : List String) : Registry := ⟨home, []⟩

def isSame (r : Registry) (p q : Path) : Bool := p.normal r.home == q.normal r.home

def paths (r : Registry) (job : JobId) : List Path :=
  ((r.claims.find? (fun claim => claim.1 == job)).map Prod.snd).getD []

-- A path joins the others, unless one of them leads to the same place.
def join (r : Registry) (p : Path) (others : List Path) : List Path :=
  if others.any (r.isSame p) then others else others ++ [p.absolute r.home]

def claim (r : Registry) (job : JobId) (p : Path) : Registry :=
  if r.claims.any (fun claim => claim.1 == job) then
    { r with claims := r.claims.map fun claim =>
        if claim.1 = job then (job, r.join p claim.2) else claim }
  else { r with claims := r.claims ++ [(job, [p.absolute r.home])] }

def drop (r : Registry) (job : JobId) : Registry :=
  { r with claims := r.claims.filter (fun claim => claim.1 != job) }

def dropAll (r : Registry) (jobs : List JobId) : Registry :=
  jobs.foldl drop r

def isClaimed (r : Registry) (p : Path) : Bool :=
  r.claims.any (fun claim => claim.2.any (r.isSame p))

def active (r : Registry) : List Path :=
  (r.claims.flatMap Prod.snd).foldl (fun seen p => r.join p seen) []

def size (r : Registry) : Nat := r.claims.length

theorem paths_drop (r : Registry) (job : JobId) : (r.drop job).paths job = [] := by
  unfold paths drop
  rw [List.find?_eq_none.2]
  · rfl
  · intro claim h
    have := (List.mem_filter.1 h).2
    simp_all

end Registry

end Foreman
