import Foreman.Job.Status

namespace Foreman

structure Tally where
  attempts : Nat
  completed : Nat
  retried : Nat
  failed : Nat
  skipped : Nat
  inFlight : Nat
  deriving DecidableEq, Repr, Inhabited

structure Load where
  queued : Nat
  queueCapacity : Nat
  slotsInUse : Nat
  slots : Nat
  pending : Nat
  processing : Nat
  retrying : Nat
  completed : Nat
  failed : Nat
  tally : Tally
  deriving DecidableEq, Repr, Inhabited

structure Health where
  isRunning : Bool
  isSaturated : Bool
  deriving DecidableEq, Repr, Inhabited

namespace Tally

def zero : Tally := ⟨0, 0, 0, 0, 0, 0⟩

def begin (t : Tally) : Tally := { t with inFlight := t.inFlight + 1 }

def count (t : Tally) : Outcome → Tally
  | .completed => { t with completed := t.completed + 1 }
  | .retried => { t with retried := t.retried + 1 }
  | .failed => { t with failed := t.failed + 1 }
  | .skipped => { t with skipped := t.skipped + 1 }

def finish (t : Tally) (outcome : Outcome) : Tally :=
  { t with inFlight := t.inFlight - 1, attempts := t.attempts + 1 }.count outcome

end Tally

end Foreman
