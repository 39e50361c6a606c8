import Foreman.Engine.State

namespace Foreman.Engine.State

def sweep (s : State) (dryRun : Bool) : Except PathFault (SweepReport × State) :=
  match s.config.retention.sweep s.registry s.files s.now dryRun with
  | .error fault => .error fault
  | .ok (report, files) => .ok (report, { s with files := files })

def hasPressure (s : State) : Bool := s.config.retention.hasPressure s.probe s.files

def evictOld (s : State) : Nat × State := s.evict s.config.ttl.toMillis s.now

def isSweepDue (s : State) (swept : Nat) : Bool :=
  s.hasPressure || s.config.retention.interval.toMillis ≤ s.now - swept

-- Regular upkeep: eviction, full buckets, and a sweep if one is due. A sweep counts even if
-- it could not be done.
def maintain (s : State) (upkeep : Upkeep) : State :=
  let s := s.evictOld.2
  let s := { s with limiter := s.limiter.dropFull s.nanos }
  let next := s.config.upkeep.roundAfter s.now
  if s.isSweepDue upkeep.swept then
    let s := match s.sweep false with
      | .ok (_, s) => s
      | .error _ => s
    { s with upkeep := some ⟨next, s.now⟩ }
  else { s with upkeep := some ⟨next, upkeep.swept⟩ }

end Foreman.Engine.State
