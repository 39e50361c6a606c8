import Foreman.Gate.Line

namespace Foreman

inductive Standing where
  | waiting
  | ended (granted : Bool)
  | cancelled
  deriving DecidableEq, Repr, Inhabited

-- A call that has been made and has not looked yet. Its waiting time begins when it does.
structure Request where
  tag : Nat
  job : JobId
  timeout : Nat
  deriving DecidableEq, Repr, Inhabited

-- A line of calls in virtual time. `fresh` are the calls that have not looked yet, and
-- `book` tells how each call stands. `agenda` has the tags of the calls with something to
-- do, in the order in which it came up. A call that panics is over without an answer, like one
-- that was given up, and its tag is kept.
structure Gate.Session where
  line : Line
  now : Nat
  nextTag : Nat
  fresh : List Request
  agenda : List Nat
  book : List (Nat × Standing)
  panicked : List Nat
  deriving Inhabited

namespace Gate.Session

def start (capacity : Nat) : Session :=
  ⟨Line.ofGate (Gate.ofCapacity capacity), 0, 0, [], [], [], []⟩

def standing (s : Session) (tag : Nat) : Standing :=
  ((s.book.find? (fun entry => entry.1 == tag)).map Prod.snd).getD .waiting

def close (s : Session) (tag : Nat) (standing : Standing) : Session :=
  { s with book := s.book.map fun entry =>
      if entry.1 = tag ∧ entry.2 = .waiting then (tag, standing) else entry }

def note (s : Session) (tag : Nat) : Verdict → Session
  | .granted => s.close tag (.ended true)
  | .refused => s.close tag (.ended false)
  | .waits => s
  | .panics => { s.close tag .cancelled with panicked := s.panicked ++ [tag] }

-- Something came up for these calls. No call is on the agenda twice.
def summon (s : Session) (tags : List Nat) : Session :=
  { s with agenda := s.agenda ++ tags.filter (fun tag => !s.agenda.contains tag) }

def withLine (s : Session) (line : Line) : Session :=
  { s with line := line }.summon (line.woken.map Call.tag)

def dropRequest (s : Session) (tag : Nat) : Session :=
  { s with fresh := s.fresh.filter (fun request => request.tag != tag) }

def leave (s : Session) (tag : Nat) : Session :=
  (s.withLine (s.line.withdraw tag)).note tag .refused

def isLate (s : Session) (tag : Nat) : Bool :=
  (s.line.late s.now).any (fun call => call.tag == tag)

-- What a call does when it is its turn. One that was given up leaves, and if it had been
-- woken, the next is woken in its place. Any other looks for the first time, or looks again
-- because it was woken, or else leaves because its time has come.
def turn (s : Session) (tag : Nat) : Session :=
  if s.standing tag = .cancelled then (s.dropRequest tag).leave tag
  else match s.fresh.find? (fun request => request.tag == tag) with
  | some request =>
    let (line, verdict) := s.line.lookFirst s.now ⟨tag, request.job, s.now + request.timeout⟩
    ((s.dropRequest tag).withLine line).note tag verdict
  | none => match s.line.woken.find? (fun call => call.tag == tag) with
    | some call =>
      let (line, verdict) := s.line.lookAgain s.now call
      (s.withLine line).note tag verdict
    | none => if s.isLate tag then s.leave tag else s

def settleWithin : Nat → Session → Session
  | 0, s => s
  | fuel + 1, s => match s.agenda with
    | [] => s
    | tag :: rest => settleWithin fuel ({ s with agenda := rest }.turn tag)

-- Only a call that was given up can bring another onto the agenda, and it brings one that
-- was not. So there are no more than two turns for each call that is on it now.
def settle (s : Session) : Session := settleWithin (2 * s.agenda.length) s

def arriveAt (s : Session) (now : Nat) : Session :=
  { s with now := now }.summon ((s.line.late now).map Call.tag)

def passUntil : Nat → Nat → Session → Session
  | 0, target, s => (s.arriveAt target).settle
  | fuel + 1, target, s => match s.line.nextDeadline with
    | some due => if due < target then passUntil fuel target (s.arriveAt due).settle
      else (s.arriveAt target).settle
    | none => (s.arriveAt target).settle

-- Every stop on the way closes a call, so there are no more stops than calls.
def advance (s : Session) (ms : Nat) : Session :=
  let settled := s.settle
  passUntil settled.line.waiting.length (s.now + ms) settled

def acquireNow (s : Session) (job : JobId) : Bool × Session :=
  match s.line.acquire? job with
  | some line => (true, { s with line := line })
  | none => (false, s)

def release (s : Session) (job : JobId) : Bool × Session :=
  match s.line.release? job with
  | some line => (true, s.withLine line)
  | none => (false, s)

def spawn (s : Session) (job : JobId) (timeout : Nat) : Nat × Session :=
  let made : Session := { s with
    nextTag := s.nextTag + 1
    fresh := s.fresh ++ [⟨s.nextTag, job, timeout⟩]
    book := s.book ++ [(s.nextTag, .waiting)] }
  (s.nextTag, made.summon [s.nextTag])

-- A call is given up. It stays in the line until its turn comes, and can still be woken.
def cancel (s : Session) (tag : Nat) : Session := (s.close tag .cancelled).summon [tag]

-- Time passes from deadline to deadline until the call with this tag is over. When its own
-- time has come it leaves at once, before the others have their turns.
def waitFor (tag : Nat) : Nat → Session → Session
  | 0, s => s
  | fuel + 1, s => match s.standing tag with
    | .waiting => match s.line.nextDeadline with
      | none => s
      | some due =>
        let s := s.arriveAt due
        if s.isLate tag then { s.leave tag with agenda := s.agenda.erase tag }
        else waitFor tag fuel s.settle
    | _ => s

def acquire (s : Session) (job : JobId) (timeout : Nat) : Bool × Session :=
  let tag := s.nextTag
  let (line, verdict) := s.line.lookFirst s.now ⟨tag, job, s.now + timeout⟩
  let asked : Session :=
    { s with nextTag := tag + 1, line := line, book := s.book ++ [(tag, .waiting)] }
  let looked := asked.note tag verdict
  match looked.standing tag with
  | .ended granted => (granted, looked)
  | _ =>
    let settled := looked.settle
    let waited := waitFor tag (settled.line.waiting.length + 1) settled
    (waited.standing tag == Standing.ended true, waited)

end Gate.Session

end Foreman
