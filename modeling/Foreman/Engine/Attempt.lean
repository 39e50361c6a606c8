import Foreman.Engine.State
import Foreman.Text.Quoted

namespace Foreman.Engine

inductive Ending where
  | success (artifact : Artifact)
  | failure (cause : Failure)
  | panic (message : Option String)
  deriving Inhabited, Repr

-- A panic is an unexpected failure. All tasks go by the same letter here.
def panicText : Option String → String
  | some message =>
    "worker operation aborted: task N panicked with message " ++ Text.quoted message
  | none => "worker operation aborted: task N panicked"

def Ending.result : Ending → Except Failure Artifact
  | success artifact => .ok artifact
  | failure cause => .error cause
  | panic message => .error (.unexpected [panicText message])

namespace State

-- A job fails if it may, and the attempt counts as failed in any case.
def fail (s : State) (job : JobId) (reason : String) : State :=
  match s.ledger.fail job reason s.now with
  | .ok (_, ledger) => { s with ledger := ledger }
  | .error _ => s

inductive Sequel where
  | done (outcome : Outcome)
  | requeue (priority : Int) (reason : String)
  deriving DecidableEq, Repr, Inhabited

def planRetry (s : State) (job : Job) (reason : String) : Sequel × State :=
  if job.canRetry then
    match s.ledger.retry job.id reason with
    | .ok (_, ledger) =>
      (.requeue (job.priority.getD Job.defaultPriority) reason, { s with ledger := ledger })
    | .error fault =>
      (.done .failed, s.fail job.id (reason ++ "; retry rejected: " ++ fault.message))
  else
    (.done .failed, s.fail job.id
      ("retries exhausted after " ++ Text.ofNat job.attempt ++ " attempts: " ++ reason))

def settleResult (s : State) (job : Job) (requeues : Bool) :
    Except Failure Artifact → Sequel × State
  | .ok artifact =>
    let s := { s with registry := s.registry.claim job.id (Path.ofText artifact.path) }
    match s.ledger.complete job.id artifact s.now with
    | .ok (_, ledger) => (.done .completed, { s with ledger := ledger })
    | .error _ => (.done .failed, s)
  | .error (.retriable reason) =>
    if requeues then s.planRetry job reason
    else (.done .failed, s.fail job.id ("retriable error on direct run: " ++ reason))
  | .error (.nonRetriable reason) => (.done .failed, s.fail job.id reason)
  | .error (.unexpected chain) =>
    (.done .failed, s.fail job.id ("unexpected error: " ++ Failure.joined chain))

def requeue (s : State) (job : JobId) (priority : Int) (reason : String) : Outcome × State :=
  match s.queue.enqueue s.gate job priority s.now with
  | .ok (_, queue) => (.retried, { s with queue := queue })
  | .error fault =>
    (.failed, s.fail job (reason ++ "; retry could not be scheduled: " ++ fault.message))

def followUp (s : State) (job : JobId) : Sequel → Outcome × State
  | .done outcome => (outcome, s)
  | .requeue priority reason => s.requeue job priority reason

-- The books about an attempt that is over. The time it took is not kept.
def book (s : State) (job : JobId) (attempt : Nat) (outcome : Outcome) : State :=
  { s with
    tally := s.tally.finish outcome
    audit := s.audit.push ⟨job, attempt, outcome, Span.zero, s.now⟩ }

def beginTask (s : State) (task : Task) : State :=
  let s := { s with tally := s.tally.begin }
  match s.ledger.startAttempt task.job s.now with
  | .ok (job, ledger) => { s with ledger := ledger }.setTask task.ticket (.running job)
  | .error _ => ((s.freeSlot task.job).book task.job 0 .skipped).dropTask task.ticket

def report (s : State) (job : JobId) (percent : Nat) : State :=
  match s.ledger.setProgress job percent with
  | .ok (_, ledger) => { s with ledger := ledger }
  | .error _ => s

-- An attempt ends: its result is recorded, its slot is given back, and only then does the
-- job go back to the queue, if it has to.
def endTask (s : State) (task : Task) (job : Job) (result : Except Failure Artifact) : State :=
  let (sequel, s) := s.settleResult job task.requeues result
  let (outcome, s) := (s.freeSlot task.job).followUp task.job sequel
  (s.book task.job job.attempt outcome).dropTask task.ticket

end State

end Foreman.Engine
