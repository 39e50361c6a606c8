import Foreman.Audit
import Foreman.Engine.Tally
import Foreman.Gate.Line
import Foreman.Ledger.Life
import Foreman.Queue.Basic
import Foreman.Rate.Limiter
import Foreman.Retention

namespace Foreman.Engine

-- How far an attempt at a job has come. One that goes on keeps the job as it was when the
-- attempt began.
inductive Stage where
  | starting
  | running (job : Job)
  deriving Inhabited, Repr

-- An attempt at a job, which owns the job's slot. If it fails in a way that can be mended,
-- the job goes back to the queue, unless it was run directly.
structure Task where
  ticket : Nat
  job : JobId
  requeues : Bool
  stage : Stage
  deriving Inhabited, Repr

inductive Aim where
  | slot
  | run
  deriving DecidableEq, Repr, Inhabited

inductive Answer where
  | slot (granted : Bool)
  | run (job : Option Job)
  | refused (fault : Fault)
  deriving Inhabited, Repr

inductive Phase where
  | fresh
  | waiting
  | running (ticket : Nat)
  | answered (answer : Answer)
  | abandoned
  deriving Inhabited, Repr

structure Caller where
  tag : Nat
  job : JobId
  aim : Aim
  timeout : Nat
  phase : Phase
  deriving Inhabited, Repr

structure Upkeep where
  due : Nat
  swept : Nat
  deriving DecidableEq, Repr, Inhabited

-- An engine between two steps. Times are in milliseconds of wall time. `poll` is when the
-- queue is looked at next, and absent while the engine stands still. `evicted` are the jobs
-- of whose eviction nobody has been told yet.
structure State where
  config : Config
  now : Nat
  line : Line
  queue : Queue
  ledger : Ledger
  registry : Registry
  limiter : Limiter Float
  files : Tree
  probe : Probe
  tasks : List Task
  callers : List Caller
  issued : Nat
  tally : Tally
  audit : Audit
  evicted : List JobId
  poll : Option Nat
  upkeep : Option Upkeep
  deriving Inhabited

namespace State

def gate (s : State) : Gate := s.line.gate

def nanos (s : State) : Nat := s.now * 1000000

def spawn (s : State) (job : JobId) (requeues : Bool) : State :=
  { s with
    tasks := s.tasks ++ [⟨s.issued, job, requeues, .starting⟩]
    issued := s.issued + 1 }

def task? (s : State) (ticket : Nat) : Option Task :=
  s.tasks.find? (fun task => task.ticket == ticket)

def setTask (s : State) (ticket : Nat) (stage : Stage) : State :=
  { s with tasks := s.tasks.map fun task =>
      if task.ticket = ticket then { task with stage := stage } else task }

def dropTask (s : State) (ticket : Nat) : State :=
  { s with tasks := s.tasks.filter (fun task => task.ticket != ticket) }

def caller? (s : State) (tag : Nat) : Option Caller :=
  s.callers.find? (fun caller => caller.tag == tag)

def setCaller (s : State) (tag : Nat) (phase : Phase) : State :=
  { s with callers := s.callers.map fun caller =>
      if caller.tag = tag then { caller with phase := phase } else caller }

def freeSlot (s : State) (job : JobId) : State :=
  match s.line.release? job with
  | some line => { s with line := line }
  | none => s

def evict (s : State) (ttl now : Nat) : Nat × State :=
  let (gone, ledger) := s.ledger.evict ttl now
  (gone.length, { s with
    ledger := ledger
    registry := s.registry.dropAll gone
    evicted := s.evicted ++ gone })

end State

end Foreman.Engine
