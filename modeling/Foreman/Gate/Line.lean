import Foreman.Gate.Basic
import Foreman.Span

namespace Foreman

structure Call where
  tag : Nat
  job : JobId
  deadline : Nat
  deriving DecidableEq, Repr, Inhabited

inductive Verdict where
  | granted
  | refused
  | waits
  | panics
  deriving DecidableEq, Repr, Inhabited

-- A gate and the calls in front of it. `waiting` has the longest-waiting call first.
-- A woken call has been told of a released slot and has not looked yet.
structure Line where
  gate : Gate
  waiting : List Call
  woken : List Call
  deriving DecidableEq, Repr, Inhabited

namespace Line

def ofGate (g : Gate) : Line := ⟨g, [], []⟩

-- The longest-waiting call is told that a slot came free. With nobody waiting
-- the news has no later effect.
def wakeOne (l : Line) : Line :=
  match l.waiting with
  | [] => l
  | call :: rest => { l with waiting := rest, woken := l.woken ++ [call] }

def acquire? (l : Line) (job : JobId) : Option Line :=
  (l.gate.acquire? job).map (fun g => { l with gate := g })

def release? (l : Line) (job : JobId) : Option Line :=
  (l.gate.release? job).map (fun g => wakeOne { l with gate := g })

-- One look at the gate. A call takes a slot if it can, gives up if its own job
-- has one or its time has come, and otherwise waits at the end of the line.
def look (l : Line) (now : Nat) (call : Call) : Line × Verdict :=
  match l.gate.acquire? call.job with
  | some g => ({ l with gate := g }, .granted)
  | none =>
    if l.gate.holds call.job then (l, .refused)
    else if call.deadline ≤ now then (l, .refused)
    else ({ l with waiting := l.waiting ++ [call] }, .waits)

-- The first look, by a call that must know first when its time will have come. If the clock
-- cannot tell, the call panics and has not looked at all.
def lookFirst (l : Line) (now : Nat) (call : Call) : Line × Verdict :=
  if Span.InRange call.deadline then l.look now call else (l, .panics)

def lookAgain (l : Line) (now : Nat) (call : Call) : Line × Verdict :=
  look { l with woken := l.woken.filter (fun other => other.tag != call.tag) } now call

def resume (l : Line) (now : Nat) : Option (Call × Line × Verdict) :=
  l.woken.head?.map (fun call => (call, l.lookAgain now call))

def late (l : Line) (now : Nat) : List Call :=
  l.waiting.filter (fun call => call.deadline ≤ now)

def expire (l : Line) (now : Nat) : Line × List Call :=
  ({ l with waiting := l.waiting.filter (fun call => now < call.deadline) }, l.late now)

-- A call is withdrawn. If it had been woken, the next one is woken in its place.
def withdraw (l : Line) (tag : Nat) : Line :=
  if l.woken.any (fun call => call.tag == tag) then
    wakeOne { l with woken := l.woken.filter (fun call => call.tag != tag) }
  else { l with waiting := l.waiting.filter (fun call => call.tag != tag) }

def nextDeadline (l : Line) : Option Nat :=
  (l.waiting.map Call.deadline).min?

end Line

end Foreman
