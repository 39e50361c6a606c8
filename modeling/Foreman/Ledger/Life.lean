import Foreman.Ledger.Basic

namespace Foreman

namespace Ledger

def allowed (target : Status) (job : Job) (next : Job) : Except Fault Job :=
  if job.status.canBecome target then .ok { next with status := target }
  else .error (.invalidTransition job.id job.status target)

def setPriority (l : Ledger) (id : JobId) (priority : Int) : Except Fault (Job × Ledger) :=
  l.revise id (fun job => .ok { job with priority := some priority })

def startAttempt (l : Ledger) (id : JobId) (now : Nat) : Except Fault (Job × Ledger) :=
  l.revise id fun job =>
    allowed .processing job
      { job with times := { job.times with started := some now }, position := none }

def complete (l : Ledger) (id : JobId) (artifact : Artifact) (now : Nat) :
    Except Fault (Job × Ledger) :=
  l.revise id fun job =>
    allowed .completed job { job with
      progress := 100
      error := none
      result := some artifact
      times := { job.times with completed := some now } }

def retry (l : Ledger) (id : JobId) (error : String) : Except Fault (Job × Ledger) :=
  l.revise id fun job =>
    match allowed .retrying job { job with retries := job.retries + 1, error := some error } with
    | .error fault => .error fault
    | .ok next =>
      if job.canRetry then .ok next
      else .error (.budgetExhausted id job.maxRetries)

def fail (l : Ledger) (id : JobId) (error : String) (now : Nat) :
    Except Fault (Job × Ledger) :=
  l.revise id fun job =>
    allowed .failed job
      { job with error := some error, times := { job.times with completed := some now } }

-- Progress is at most 100 percent. A job that is over makes no more progress,
-- which is no fault.
def setProgress (l : Ledger) (id : JobId) (percent : Nat) : Except Fault (Bool × Ledger) :=
  match l.get? id with
  | none => .error (.notFound id)
  | some job =>
    if job.status.isTerminal then .ok (false, l)
    else .ok (true, l.update id (fun job => { job with progress := min percent 100 }))

-- One entry for all moves. Nothing moves back to pending, and only an artifact
-- completes a job.
def move (l : Ledger) (id : JobId) (target : Status) (detail : Option String)
    (artifact : Option Artifact) (now : Nat) : Except Fault (Job × Ledger) :=
  match target, artifact with
  | .processing, _ => l.startAttempt id now
  | .completed, some artifact => l.complete id artifact now
  | .retrying, _ => l.retry id (detail.getD "")
  | .failed, _ => l.fail id (detail.getD "") now
  | target, _ => match l.get? id with
    | none => .error (.notFound id)
    | some job => .error (.invalidTransition id job.status target)

end Ledger

end Foreman
