import Foreman.Engine.Move

namespace Foreman.Engine

-- What is still to be done about an attempt whose result is on record.
inductive Rest where
  | slot (sequel : State.Sequel)
  | sequel (sequel : State.Sequel)
  | counters (outcome : Outcome)
  | audit (outcome : Outcome)
  deriving DecidableEq, Repr, Inhabited

structure Tail where
  ticket : Nat
  job : JobId
  attempt : Nat
  rest : Rest
  deriving DecidableEq, Repr, Inhabited

-- How far a request to queue a job has come. The job was pending when the request looked at it.
inductive Filing where
  | looked
  | filed
  | refused
  deriving DecidableEq, Repr, Inhabited

structure Request where
  tag : Nat
  job : JobId
  priority : Int
  isNew : Bool
  filing : Filing
  deriving DecidableEq, Repr, Inhabited

-- An engine on several threads. Each attempt and each request goes on step by step, and between
-- two of its steps others can take theirs.
structure Threads where
  state : State
  tails : List Tail
  requests : List Request
  deriving Inhabited

-- A move that is a single step is one whole. An attempt that is over goes on until nothing is
-- left to be done about it, and so does a request until it is granted or refused.
inductive Step where
  | whole (move : Move)
  | begin (ticket : Nat)
  | settle (ticket : Nat) (result : Except Failure Artifact)
  | goOn (ticket : Nat)
  | look (tag : Nat) (id : JobId) (priority : Int) (isNew : Bool)
  | proceed (tag : Nat)

namespace Threads

def ofState (s : State) : Threads := ⟨s, [], []⟩

def tail? (t : Threads) (ticket : Nat) : Option Tail :=
  t.tails.find? (fun tail => tail.ticket == ticket)

def setTail (t : Threads) (ticket : Nat) (rest : Rest) : Threads :=
  { t with tails := t.tails.map fun tail =>
      if tail.ticket = ticket then { tail with rest := rest } else tail }

def dropTail (t : Threads) (ticket : Nat) : Threads :=
  { t with tails := t.tails.filter (fun tail => tail.ticket != ticket) }

def request? (t : Threads) (tag : Nat) : Option Request :=
  t.requests.find? (fun request => request.tag == tag)

def setRequest (t : Threads) (tag : Nat) (filing : Filing) : Threads :=
  { t with requests := t.requests.map fun request =>
      if request.tag = tag then { request with filing := filing } else request }

def dropRequest (t : Threads) (tag : Nat) : Threads :=
  { t with requests := t.requests.filter (fun request => request.tag != tag) }

-- Nothing is half done.
def IsSettled (t : Threads) : Prop := t.tails = [] ∧ t.requests = []

instance (t : Threads) : Decidable t.IsSettled :=
  inferInstanceAs (Decidable (t.tails = [] ∧ t.requests = []))

def withState (t : Threads) (s : State) : Threads := { t with state := s }

def begin (t : Threads) (task : Task) : Threads :=
  let s := { t.state with tally := t.state.tally.begin }
  match s.ledger.startAttempt task.job s.now with
  | .ok (job, ledger) =>
    t.withState ({ s with ledger := ledger }.setTask task.ticket (.running job))
  | .error _ =>
    { t with state := s, tails := t.tails ++ [⟨task.ticket, task.job, 0, .slot (.done .skipped)⟩] }

def settle (t : Threads) (task : Task) (job : Job) (result : Except Failure Artifact) : Threads :=
  let (sequel, s) := t.state.settleResult job task.requeues result
  { t with state := s, tails := t.tails ++ [⟨task.ticket, task.job, job.attempt, .slot sequel⟩] }

-- An attempt gives its slot back, then it sees to it that its job is tried again if it is to be,
-- and then it is counted and reported.
def goOn (t : Threads) (tail : Tail) : Threads :=
  match tail.rest with
  | .slot sequel => (t.withState (t.state.freeSlot tail.job)).setTail tail.ticket (.sequel sequel)
  | .sequel sequel =>
    let (outcome, s) := t.state.followUp tail.job sequel
    (t.withState s).setTail tail.ticket (.counters outcome)
  | .counters outcome =>
    (t.withState { t.state with tally := t.state.tally.finish outcome }).setTail tail.ticket
      (.audit outcome)
  | .audit outcome =>
    let record := ⟨tail.job, tail.attempt, outcome, Span.zero, t.state.now⟩
    (t.withState ({ t.state with audit := t.state.audit.push record }.dropTask
      tail.ticket)).dropTail tail.ticket

def look (t : Threads) (tag : Nat) (id : JobId) (priority : Int) (isNew : Bool) : Threads :=
  match t.state.ledger.get? id with
  | none => t
  | some job =>
    if job.status = .pending then
      { t with requests := t.requests ++ [⟨tag, id, priority, isNew, .looked⟩] }
    else if isNew then
      { t with requests := t.requests ++ [⟨tag, id, priority, isNew, .refused⟩] }
    else t

-- A new job that cannot be queued is forgotten again.
def refuse (t : Threads) (request : Request) : Threads :=
  if request.isNew then t.setRequest request.tag .refused else t.dropRequest request.tag

-- The priority is put on record first, and then the job goes into the queue.
def proceed (t : Threads) (request : Request) : Threads :=
  match request.filing with
  | .looked => match t.state.ledger.setPriority request.job request.priority with
    | .error _ => t.refuse request
    | .ok (_, ledger) =>
      (t.withState { t.state with ledger := ledger }).setRequest request.tag .filed
  | .filed =>
    match t.state.queue.enqueue t.state.gate request.job request.priority t.state.now with
    | .error _ => t.refuse request
    | .ok (_, queue) => (t.withState { t.state with queue := queue }).dropRequest request.tag
  | .refused => (t.withState (t.state.forget request.job)).dropRequest request.tag

-- The task of an attempt that has nothing else left to be done.
def task? (t : Threads) (ticket : Nat) : Option Task :=
  if (t.tail? ticket).isSome then none else t.state.task? ticket

def apply (t : Threads) : Step → Threads
  | .whole (.submit ..) | .whole (.enqueue ..) | .whole (.beginTask ..) | .whole (.endTask ..) => t
  | .whole move => t.withState (t.state.apply move)
  | .begin ticket => match t.task? ticket with
    | some task => match task.stage with
      | .starting => t.begin task
      | .running _ => t
    | none => t
  | .settle ticket result => match t.task? ticket with
    | some task => match task.stage with
      | .starting => t
      | .running job => t.settle task job result
    | none => t
  | .goOn ticket => match t.tail? ticket with
    | some tail => t.goOn tail
    | none => t
  | .look tag id priority isNew =>
    if (t.request? tag).isSome then t else t.look tag id priority isNew
  | .proceed tag => match t.request? tag with
    | some request => t.proceed request
    | none => t

def run (t : Threads) (steps : List Step) : Threads := steps.foldl apply t

theorem run_append (t : Threads) (first second : List Step) :
    t.run (first ++ second) = (t.run first).run second := by
  simp [run]

end Threads

-- The steps of a move one after the other. On a single thread nothing else happens in between.
def Move.steps : Move → List Step
  | .beginTask ticket => .begin ticket :: List.replicate 4 (.goOn ticket)
  | .endTask ticket result => .settle ticket result :: List.replicate 4 (.goOn ticket)
  | .enqueue id priority => .look 0 id priority false :: List.replicate 2 (.proceed 0)
  | .submit id params priority maxRetries =>
    .whole (.create id params maxRetries) :: .look 0 id priority true ::
      List.replicate 3 (.proceed 0)
  | move => [.whole move]

namespace Threads

-- An engine whose moves are made on one thread.
def onOneThread (s : State) (moves : List Move) : Threads :=
  (ofState s).run (moves.flatMap Move.steps)

end Threads

end Foreman.Engine
