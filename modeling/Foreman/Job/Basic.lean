import Foreman.Job.Identity
import Foreman.Job.Status
import Foreman.Json.Value

namespace Foreman

abbrev Params := List (String × Json)

structure Artifact where
  path : String
  size : Nat
  duration : Float
  deriving Inhabited, Repr

structure Times where
  created : Nat
  started : Option Nat
  completed : Option Nat
  deriving DecidableEq, Repr, Inhabited

-- A unit of requested work. `priority` is the one under which it was last queued, and
-- `position` its place in the queue, known only to those who asked the queue.
structure Job where
  id : JobId
  params : Params
  status : Status
  progress : Nat
  retries : Nat
  maxRetries : Nat
  priority : Option Int
  error : Option String
  result : Option Artifact
  times : Times
  position : Option Nat
  deriving Inhabited, Repr

namespace Job

def defaultPriority : Int := 5

def defaultMaxRetries : Nat := 3

def fresh (id : JobId) (params : Params) (maxRetries now : Nat) : Job where
  id := id
  params := params
  status := .pending
  progress := 0
  retries := 0
  maxRetries := maxRetries
  priority := none
  error := none
  result := none
  times := ⟨now, none, none⟩
  position := none

def canRetry (j : Job) : Bool := j.retries < j.maxRetries

def attempt (j : Job) : Nat := j.retries + 1

end Job

end Foreman
