import Foreman.Engine.State

namespace Foreman.Engine.State

def takeNext (s : State) : Option (JobId × State) :=
  match s.queue.dequeue? s.gate with
  | none => none
  | some (job, queue, gate) =>
    some (job, { s with queue := queue, line := { s.line with gate := gate } })

def burstWithin : Nat → State → State
  | 0, s => s
  | fuel + 1, s => match s.takeNext with
    | none => s
    | some (job, s) => burstWithin fuel (s.spawn job true)

-- No more jobs can leave the queue than are in it.
def burst (s : State) : State := burstWithin s.queue.length s

def pollQueue (s : State) : State :=
  { s.burst with poll := some (Span.wakeAfter s.now s.config.poll.toMillis) }

end Foreman.Engine.State
