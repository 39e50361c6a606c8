import Foreman.Ledger.Eviction
import Foreman.Ledger.Life

namespace Foreman

-- Work on the record of one job, where it stands. What has been written stays written when the rest
-- is given up.
abbrev Draft := ExceptT Fault (StateM Job)

namespace Draft

variable {α β : Type}

def perform (draft : Draft α) (job : Job) : Except Fault α × Job := StateT.run draft.run job

@[simp] theorem perform_pure (a : α) (job : Job) : (pure a : Draft α).perform job = (.ok a, job) :=
  rfl

@[simp] theorem perform_throw (fault : Fault) (job : Job) :
    (throw fault : Draft α).perform job = (.error fault, job) := rfl

@[simp] theorem perform_get (job : Job) : (get : Draft Job).perform job = (.ok job, job) := rfl

@[simp] theorem perform_modify (f : Job → Job) (job : Job) :
    (modify f : Draft PUnit).perform job = (.ok ⟨⟩, f job) := rfl

@[simp] theorem perform_bind (draft : Draft α) (f : α → Draft β) (job : Job) :
    (draft >>= f).perform job = match draft.perform job with
      | (.ok a, next) => (f a).perform next
      | (.error fault, next) => (.error fault, next) := by
  simp only [perform, ExceptT.run_bind, StateT.run_bind]
  rcases StateT.run draft.run job with ⟨_ | a, next⟩ <;> rfl

@[simp] theorem perform_map (f : α → β) (draft : Draft α) (job : Job) :
    (f <$> draft).perform job = ((draft.perform job).1.map f, (draft.perform job).2) := by
  rw [map_eq_pure_bind, perform_bind]
  rcases draft.perform job with ⟨_ | a, next⟩ <;> rfl

def check (target : Status) : Draft Unit := do
  let job ← get
  unless job.status.canBecome target do
    throw (.invalidTransition job.id job.status target)

def setPriority (priority : Int) : Draft Unit :=
  modify fun job => { job with priority := some priority }

def startAttempt (now : Nat) : Draft Job := do
  check .processing
  modify fun job => { job with status := .processing }
  modify fun job => { job with times := { job.times with started := some now } }
  modify fun job => { job with position := none }
  get

def complete (artifact : Artifact) (now : Nat) : Draft Job := do
  check .completed
  modify fun job => { job with status := .completed }
  modify fun job => { job with progress := 100 }
  modify fun job => { job with error := none }
  modify fun job => { job with result := some artifact }
  modify fun job => { job with times := { job.times with completed := some now } }
  get

def retry (id : JobId) (reason : String) : Draft Job := do
  check .retrying
  let job ← get
  unless job.canRetry do
    throw (.budgetExhausted id job.maxRetries)
  modify fun job => { job with status := .retrying }
  modify fun job => { job with retries := job.retries + 1 }
  modify fun job => { job with error := some reason }
  get

def fail (reason : String) (now : Nat) : Draft Job := do
  check .failed
  modify fun job => { job with status := .failed }
  modify fun job => { job with error := some reason }
  modify fun job => { job with times := { job.times with completed := some now } }
  get

def setProgress (percent : Nat) : Draft Bool := do
  let job ← get
  if job.status.isTerminal then
    return false
  modify fun job => { job with progress := min percent 100 }
  return true

-- The moves that can be asked for by their target. Nothing leads back to pending, and only an
-- artifact completes a job.
def move? (id : JobId) (now : Nat) (detail : Option String) (artifact : Option Artifact) :
    Status → Option (Draft Job)
  | .pending => none
  | .processing => some (startAttempt now)
  | .retrying => some (retry id (detail.getD ""))
  | .completed => artifact.map fun artifact => complete artifact now
  | .failed => some (fail (detail.getD "") now)

end Draft

-- What may be asked of the record of one job.
inductive Edit where
  | setPriority (priority : Int)
  | startAttempt
  | complete (artifact : Artifact)
  | retry (reason : String)
  | fail (reason : String)
  | setProgress (percent : Nat)
  | move (target : Status) (detail : Option String) (artifact : Option Artifact)
  | discard

inductive Response where
  | done
  | job (job : Job)
  | flag (flag : Bool)

namespace Ledger

variable {α : Type}

def withJob (l : Ledger) (id : JobId) (draft : Draft α) : Except Fault α × Ledger :=
  match l.get? id with
  | none => (.error (.notFound id), l)
  | some job =>
    let (answer, job) := draft.perform job
    (answer, l.update id fun _ => job)

-- Where no move is made, the status is looked up for the sake of the fault alone.
def decline (l : Ledger) (id : JobId) (target : Status) : Except Fault Response × Ledger :=
  match l.get? id with
  | none => (.error (.notFound id), l)
  | some job => (.error (.invalidTransition id job.status target), l)

def discardInPlace (l : Ledger) (id : JobId) : Except Fault Response × Ledger :=
  match l.removeIf id (fun job => job.status = .pending) with
  | none => (.ok (.flag false), l)
  | some next => (.ok (.flag true), next)

def amend (l : Ledger) (id : JobId) (now : Nat) : Edit → Except Fault Response × Ledger
  | .setPriority priority => l.withJob id ((fun _ => .done) <$> Draft.setPriority priority)
  | .startAttempt => l.withJob id (.job <$> Draft.startAttempt now)
  | .complete artifact => l.withJob id (.job <$> Draft.complete artifact now)
  | .retry reason => l.withJob id (.job <$> Draft.retry id reason)
  | .fail reason => l.withJob id (.job <$> Draft.fail reason now)
  | .setProgress percent => l.withJob id (.flag <$> Draft.setProgress percent)
  | .move target detail artifact => match Draft.move? id now detail artifact target with
    | some draft => l.withJob id (.job <$> draft)
    | none => l.decline id target
  | .discard => l.discardInPlace id

end Ledger

end Foreman
