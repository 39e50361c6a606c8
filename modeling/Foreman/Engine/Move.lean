import Foreman.Engine.Service

namespace Foreman.Engine

-- Everything that can happen to an engine, one thing at a time. Requests come from outside;
-- the rest is what attempts, callers, polling and upkeep do by themselves. Operations may end
-- as and when they like.
inductive Move where
  | create (id : JobId) (params : Params) (maxRetries : Option Nat)
  | submit (id : JobId) (params : Params) (priority : Int) (maxRetries : Option Nat)
  | enqueue (id : JobId) (priority : Int)
  | withdrawJob (id : JobId)
  | takeJob
  | returnSlot (id : JobId)
  | askRate (caller category : String)
  | protect (id : JobId) (path : String)
  | unprotect (id : JobId)
  | evict
  | sweep (dryRun : Bool)
  | start
  | stop
  | arrive (job : JobId) (aim : Aim) (timeout : Nat)
  | abandon (tag : Nat)
  | firstLook (tag : Nat)
  | nextLook
  | collect (tag : Nat)
  | beginTask (ticket : Nat)
  | report (ticket : Nat) (percent : Nat)
  | endTask (ticket : Nat) (result : Except Failure Artifact)
  | poll
  | maintain
  | pass (now : Nat)

namespace State

def nextDue (s : State) : Option Nat :=
  (s.poll.toList ++ (s.upkeep.map Upkeep.due).toList ++ s.line.nextDeadline.toList).min?

-- Time passes, but not beyond what is due. Those whose time has come stop waiting.
def pass (s : State) (now : Nat) : State :=
  if s.now ≤ now ∧ s.nextDue.all (fun due => now ≤ due) then
    { s with now := now }.expireCallers
  else s

def withCaller (s : State) (tag : Nat) (f : Caller → State) : State :=
  match s.caller? tag with
  | some caller => f caller
  | none => s

def withTask (s : State) (ticket : Nat) (f : Task → State) : State :=
  match s.task? ticket with
  | some task => f task
  | none => s

def isOver (s : State) (ticket : Nat) : Bool := (s.task? ticket).isNone

-- What a move makes of a state. One that is not possible changes nothing.
def apply (s : State) : Move → State
  | .create id params maxRetries => (s.addJob id params maxRetries).2
  | .submit id params priority maxRetries => (s.submit id params priority maxRetries).2
  | .enqueue id priority => (s.enqueue id priority).2
  | .withdrawJob id => (s.withdrawJob id).2
  | .takeJob => s.takeJob.2
  | .returnSlot id => (s.returnSlot id).2
  | .askRate caller category => (s.askRate caller category).2
  | .protect id path => (s.protect id path).2
  | .unprotect id => (s.unprotect id).2
  | .evict => s.evictOld.2
  | .sweep dryRun => match s.sweep dryRun with
    | .ok (_, s) => s
    | .error _ => s
  | .start => s.start
  | .stop => s.stop
  | .arrive job aim timeout => (s.arrive job aim timeout).2
  | .abandon tag => s.abandon tag
  | .firstLook tag => s.withCaller tag fun caller => match caller.phase with
    | .fresh => s.firstLook caller
    | _ => s
  | .nextLook => s.nextLook
  | .collect tag => s.withCaller tag fun caller => match caller.phase with
    | .running ticket => if s.isOver ticket then s.collect caller else s
    | _ => s
  | .beginTask ticket => s.withTask ticket fun task => match task.stage with
    | .starting => s.beginTask task
    | .running _ => s
  | .report ticket percent => s.withTask ticket fun task => match task.stage with
    | .starting => s
    | .running _ => s.report task.job percent
  | .endTask ticket result => s.withTask ticket fun task => match task.stage with
    | .starting => s
    | .running job => s.endTask task job result
  | .poll => match s.poll with
    | some due => if due ≤ s.now then s.pollQueue else s
    | none => s
  | .maintain => match s.upkeep with
    | some upkeep => if upkeep.due ≤ s.now then s.maintain upkeep else s
    | none => s
  | .pass now => s.pass now

def run (s : State) (moves : List Move) : State := moves.foldl apply s

theorem run_append (s : State) (first second : List Move) :
    s.run (first ++ second) = (s.run first).run second := by
  simp [run]

end State

end Foreman.Engine
