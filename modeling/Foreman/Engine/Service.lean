import Foreman.Engine.Attempt
import Foreman.Engine.Direct
import Foreman.Engine.Dispatch
import Foreman.Engine.Upkeep

namespace Foreman.Engine.State

-- Polling and upkeep begin, both of them right now. What goes on already keeps its times.
def start (s : State) : State :=
  { s with
    poll := some (s.poll.getD s.now)
    upkeep := some (s.upkeep.getD ⟨s.now, s.now⟩) }

def stop (s : State) : State := { s with poll := none, upkeep := none }

def addJob (s : State) (id : JobId) (params : Params) (maxRetries : Option Nat) : Job × State :=
  let (job, ledger) := s.ledger.create id params (maxRetries.getD s.config.maxRetries) s.now
  (job, { s with ledger := ledger })

def enqueue (s : State) (id : JobId) (priority : Int) : Except Fault Nat × State :=
  match s.ledger.get? id with
  | none => (.error (.notFound id), s)
  | some job =>
    if job.status = .pending then
      match s.ledger.setPriority id priority with
      | .error fault => (.error fault, s)
      | .ok (_, ledger) =>
        let s := { s with ledger := ledger }
        match s.queue.enqueue s.gate id priority s.now with
        | .error fault => (.error fault, s)
        | .ok (position, queue) => (.ok position, { s with queue := queue })
    else (.error (.invalidTransition id job.status .pending), s)

def view (s : State) (job : Job) : Job :=
  if job.status = .pending then { job with position := s.queue.position? job.id } else job

def job? (s : State) (id : JobId) : Option Job :=
  (s.ledger.get? id).map fun job => { s.view job with
    position := if job.status = .pending then s.queue.position? id else none }

def jobs (s : State) (status : Option Status) (limit : Nat) : List Job :=
  (s.ledger.list status limit).map s.view

def forget (s : State) (id : JobId) : State :=
  { s with ledger := (s.ledger.discard id).getD s.ledger }

-- A new job goes into the queue. If it cannot, there is no such job.
def submit (s : State) (id : JobId) (params : Params) (priority : Int) (maxRetries : Option Nat) :
    Except Fault Job × State :=
  let (job, s) := s.addJob id params maxRetries
  match s.enqueue job.id priority with
  | (.ok _, s) => match s.job? job.id with
    | some job => (.ok job, s)
    | none => (.error (.notFound job.id), s)
  | (.error fault, s) => (.error fault, s.forget job.id)

def withdrawJob (s : State) (id : JobId) : Bool × State :=
  match s.queue.erase? id with
  | none => (false, s)
  | some queue => (true, { s with queue := queue }.forget id)

def takeJob (s : State) : Option JobId × State :=
  match s.takeNext with
  | none => (none, s)
  | some (job, s) => (some job, s)

def returnSlot (s : State) (id : JobId) : Bool × State :=
  match s.line.release? id with
  | none => (false, s)
  | some line => (true, { s with line := line })

def askRate (s : State) (caller category : String) : Decision Float × State :=
  let (decision, limiter) := s.limiter.take caller category s.nanos
  (decision, { s with limiter := limiter })

def protect (s : State) (id : JobId) (path : String) : Except Fault Unit × State :=
  if s.ledger.contains id then
    (.ok (), { s with registry := s.registry.claim id (Path.ofText path) })
  else (.error (.notFound id), s)

def unprotect (s : State) (id : JobId) : List Path × State :=
  (s.registry.paths id, { s with registry := s.registry.drop id })

def load (s : State) : Load where
  queued := s.queue.length
  queueCapacity := s.queue.capacity
  slotsInUse := s.gate.taken
  slots := s.gate.capacity
  pending := s.ledger.count .pending
  processing := s.ledger.count .processing
  retrying := s.ledger.count .retrying
  completed := s.ledger.count .completed
  failed := s.ledger.count .failed
  tally := s.tally

def health (s : State) : Health := ⟨s.poll.isSome, s.queue.isSaturated⟩

end Foreman.Engine.State
