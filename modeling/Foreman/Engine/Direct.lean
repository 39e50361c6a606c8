import Foreman.Engine.State

namespace Foreman.Engine.State

def arrive (s : State) (job : JobId) (aim : Aim) (timeout : Nat) : Nat × State :=
  (s.issued, { s with
    callers := s.callers ++ [⟨s.issued, job, aim, timeout, .fresh⟩]
    issued := s.issued + 1 })

-- What a caller does about the verdict of the gate. One who wants to run a job takes it out
-- of the queue, now that the slot is there.
def hear (s : State) (caller : Caller) : Verdict → State
  | .waits => s.setCaller caller.tag .waiting
  | .panics => s.setCaller caller.tag .abandoned
  | .refused => s.setCaller caller.tag <| .answered <| match caller.aim with
    | .slot => .slot false
    | .run => .run none
  | .granted => match caller.aim with
    | .slot => s.setCaller caller.tag (.answered (.slot true))
    | .run =>
      let queue := (s.queue.erase? caller.job).getD s.queue
      ({ s with queue := queue }.setCaller caller.tag (.running s.issued)).spawn caller.job false

def firstLook (s : State) (caller : Caller) : State :=
  if caller.aim = .run ∧ s.ledger.contains caller.job = false then
    s.setCaller caller.tag (.answered (.refused (.notFound caller.job)))
  else
    let (line, verdict) :=
      s.line.lookFirst s.now ⟨caller.tag, caller.job, s.now + caller.timeout⟩
    { s with line := line }.hear caller verdict

def nextLook (s : State) : State :=
  match s.line.resume s.now with
  | none => s
  | some (call, line, verdict) =>
    let s := { s with line := line }
    match s.caller? call.tag with
    | none => s
    | some caller => s.hear caller verdict

def expireCallers (s : State) : State :=
  let (line, gone) := s.line.expire s.now
  gone.foldl (fun s call => match s.caller? call.tag with
    | none => s
    | some caller => s.hear caller .refused) { s with line := line }

def collect (s : State) (caller : Caller) : State :=
  s.setCaller caller.tag (.answered (.run (s.ledger.get? caller.job)))

-- A caller gives up. A run that has begun goes on without the caller.
def abandon (s : State) (tag : Nat) : State :=
  match s.caller? tag with
  | none => s
  | some caller => match caller.phase with
    | .answered _ | .abandoned => s
    | _ => { s with line := s.line.withdraw tag }.setCaller tag .abandoned

end Foreman.Engine.State
