import Foreman.Engine.Move

namespace Foreman.Engine

structure Play where
  before : List Nat
  sleep : Nat
  after : List Nat
  ending : Ending
  deriving Inhabited, Repr

abbrev Operation := Params → Nat → Play

structure Performance where
  ticket : Nat
  due : Nat
  play : Play
  deriving Inhabited, Repr

structure OperationCall where
  job : JobId
  attempt : Nat
  time : Nat
  deriving DecidableEq, Repr, Inhabited

-- An engine with its operation in virtual time, where nothing takes time but sleep. All calls
-- of the operation are written down, and how many went on at once at most.
structure Timeline where
  state : State
  operation : Operation
  performances : List Performance
  calls : List OperationCall
  peak : Nat
  deriving Inhabited

namespace Timeline

def ofState (state : State) (operation : Operation) : Timeline := ⟨state, operation, [], [], 0⟩

def make (t : Timeline) (move : Move) : Timeline := { t with state := t.state.apply move }

def reportAll (t : Timeline) (ticket : Nat) (percents : List Nat) : Timeline :=
  percents.foldl (fun t percent => t.make (.report ticket percent)) t

def perform (t : Timeline) (ticket : Nat) (job : Job) : Timeline :=
  let play := t.operation job.params job.attempt
  let asleep := (t.performances.filter (fun p => 0 < p.play.sleep)).length
  let called : Timeline := { t with
    performances := t.performances ++ [⟨ticket, Span.wakeAfter t.state.now play.sleep, play⟩]
    calls := t.calls ++ [⟨job.id, job.attempt, t.state.now⟩]
    peak := max t.peak (asleep + 1) }
  called.reportAll ticket play.before

def conclude (t : Timeline) (p : Performance) : Timeline :=
  let others := t.performances.filter (fun other => other.ticket != p.ticket)
  let rest : Timeline := { t with performances := others }
  (rest.reportAll p.ticket p.play.after).make (.endTask p.ticket p.play.ending.result)

def startingTask? (t : Timeline) : Option Nat :=
  t.state.tasks.findSome? fun task => match task.stage with
    | .starting => some task.ticket
    | .running _ => none

def isPerformed (t : Timeline) (ticket : Nat) : Bool :=
  t.performances.any (fun p => p.ticket == ticket)

def idleTask? (t : Timeline) : Option (Nat × Job) :=
  t.state.tasks.findSome? fun task => match task.stage with
    | .starting => none
    | .running job => if t.isPerformed task.ticket then none else some (task.ticket, job)

def duePerformance? (t : Timeline) : Option Performance :=
  t.performances.find? (fun p => p.due ≤ t.state.now)

def freshCaller? (t : Timeline) : Option Nat :=
  t.state.callers.findSome? fun caller => match caller.phase with
    | .fresh => some caller.tag
    | _ => none

def servedCaller? (t : Timeline) : Option Nat :=
  t.state.callers.findSome? fun caller => match caller.phase with
    | .running ticket => if t.state.isOver ticket then some caller.tag else none
    | _ => none

def isDue (t : Timeline) (time : Option Nat) : Bool := time.any (fun due => due ≤ t.state.now)

-- One thing that can happen at this instant: first what concerns attempts, then callers, then
-- polling and upkeep.
def step? (t : Timeline) : Option Timeline :=
  match t.startingTask? with
  | some ticket => some (t.make (.beginTask ticket))
  | none => match t.idleTask? with
  | some (ticket, job) => some (t.perform ticket job)
  | none => match t.duePerformance? with
  | some p => some (t.conclude p)
  | none => match t.servedCaller? with
  | some tag => some (t.make (.collect tag))
  | none =>
    if !t.state.line.woken.isEmpty then some (t.make .nextLook)
    else match t.freshCaller? with
    | some tag => some (t.make (.firstLook tag))
    | none =>
      if t.isDue t.state.poll then some (t.make .poll)
      else if t.isDue (t.state.upkeep.map Upkeep.due) then some (t.make .maintain)
      else none

def settleWithin : Nat → Timeline → Timeline
  | 0, t => t
  | fuel + 1, t => match t.step? with
    | none => t
    | some t => settleWithin fuel t

-- Attempts begin, go on and end; callers look, look again and collect; and each job in the
-- queue can become an attempt, each slot given back can wake a caller.
def settleBound (t : Timeline) : Nat :=
  8 * (t.state.tasks.length + t.state.callers.length + t.state.queue.length + 1)

def settle (t : Timeline) : Timeline := settleWithin t.settleBound t

def nextDue (t : Timeline) : Option Nat :=
  (t.state.nextDue.toList ++ t.performances.map Performance.due).min?

def arriveAt (t : Timeline) (now : Nat) : Timeline := (t.make (.pass now)).settle

def passUntil (target : Nat) : Nat → Timeline → Timeline
  | 0, t => t.arriveAt target
  | fuel + 1, t => match t.nextDue with
    | none => t.arriveAt target
    | some due => if due < target then passUntil target fuel (t.arriveAt due) else t.arriveAt target

-- Time passes from one event to the next. They are a millisecond apart at least.
def advance (t : Timeline) (ms : Nat) : Timeline := passUntil (t.state.now + ms) ms t

def answer? (t : Timeline) (tag : Nat) : Option Answer :=
  match (t.state.caller? tag).map Caller.phase with
  | some (.answered answer) => some answer
  | _ => none

def waitWithin (tag : Nat) : Nat → Timeline → Timeline
  | 0, t => t
  | fuel + 1, t => match t.answer? tag with
    | some _ => t
    | none => match t.nextDue with
      | none => t
      | some due => waitWithin tag fuel (t.arriveAt due)

def longest (t : Timeline) : Nat :=
  (t.performances.map (fun p => p.due - t.state.now)).foldl max 0

-- Time passes until a caller has an answer. First the caller waits for a slot, no longer than
-- it wants to, and then for the operation.
def waitFor (t : Timeline) (tag timeout : Nat) : Timeline :=
  let t := waitWithin tag (timeout + 1) t
  waitWithin tag (t.longest + 1) t

def spawnCall (t : Timeline) (job : JobId) (aim : Aim) (timeout : Nat) : Nat × Timeline :=
  ((t.state.arrive job aim timeout).1, t.make (.arrive job aim timeout))

def call (t : Timeline) (job : JobId) (aim : Aim) (timeout : Nat) : Option Answer × Timeline :=
  let (tag, t) := t.spawnCall job aim timeout
  let t := (t.make (.firstLook tag)).settle.waitFor tag timeout
  (t.answer? tag, t)

end Timeline

end Foreman.Engine
