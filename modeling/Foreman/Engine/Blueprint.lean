import Foreman.Engine.Timeline

namespace Foreman.Engine

structure Surroundings where
  now : Nat
  processors : Nat
  volume : Usage
  files : Tree
  deriving Inhabited, Repr

-- What an engine is to be made of. Without an audit nothing is kept of attempts, and without
-- a probe the volume of the output directory is asked.
structure Blueprint where
  config : Config
  operation : Option Operation
  audit : Option Audit
  probe : Option Probe
  deriving Inhabited

namespace Blueprint

def slots (b : Blueprint) (around : Surroundings) : Nat :=
  b.config.slots.getD around.processors

def initial (b : Blueprint) (around : Surroundings) : State where
  config := b.config
  now := around.now
  line := Line.ofGate (Gate.ofCapacity (b.slots around))
  queue := Queue.ofCapacity b.config.queueCapacity
  ledger := Ledger.empty
  registry := Registry.ofHome around.files.home
  limiter := Limiter.ofLimits b.config.limits b.config.fallback
  files := around.files
  probe := b.probe.getD (.measured around.volume)
  tasks := []
  callers := []
  issued := 0
  tally := Tally.zero
  audit := b.audit.getD (Audit.ofCapacity 0)
  evicted := []
  poll := none
  upkeep := none

def build (b : Blueprint) (around : Surroundings) : Except Fault Timeline :=
  match b.config.flaw? with
  | some flaw => .error (.config ("config invalid: " ++ flaw.message))
  | none => match b.operation with
    | none => .error (.config "worker operation not set")
    | some operation => .ok (Timeline.ofState (b.initial around) operation)

end Blueprint

end Foreman.Engine
