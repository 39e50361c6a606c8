import Foreman.Job.Basic
import Foreman.Span

namespace Foreman

structure Limit where
  perMinute : Nat
  burst : Nat
  deriving DecidableEq, Repr, Inhabited

structure RetentionRules where
  outputDir : String
  ageHours : Nat
  threshold : Float
  intervalSecs : Nat
  deriving Repr, Inhabited

-- Everything one can choose about an engine. Without a number of slots there is one for
-- each processor.
structure Config where
  slots : Option Nat
  queueCapacity : Nat
  ttlHours : Nat
  maxRetries : Nat
  pollMillis : Nat
  upkeepSecs : Nat
  limits : List (String × Limit)
  fallback : Limit
  retention : RetentionRules
  deriving Repr, Inhabited

inductive Flaw where
  | notPositive (field : String)
  | limitNotPositive (category field : String)
  | thresholdOutOfRange
  | ofRetention (flaw : Flaw)
  deriving DecidableEq, Repr, Inhabited

namespace Flaw

def message : Flaw → String
  | notPositive field => field ++ " must be greater than 0"
  | limitNotPositive category field =>
    "rate limit `" ++ category ++ "`: " ++ field ++ " must be greater than 0"
  | thresholdOutOfRange => "cleanup_threshold_percent must be in (0, 100]"
  | ofRetention flaw => "retention invalid: " ++ flaw.message

def ofZero (value : Nat) (flaw : Flaw) : Option Flaw :=
  if value = 0 then some flaw else none

end Flaw

namespace Limit

def flaw? (category : String) (limit : Limit) : Option Flaw :=
  (Flaw.ofZero limit.perMinute (.limitNotPositive category "rpm")).or
    (Flaw.ofZero limit.burst (.limitNotPositive category "burst_capacity"))

end Limit

namespace RetentionRules

def standard : RetentionRules := ⟨"downloads", 24, 80.0, 3600⟩

def age (r : RetentionRules) : Span := Span.ofHours r.ageHours

def interval (r : RetentionRules) : Span := Span.ofSecs r.intervalSecs

-- A threshold is a share of the whole, and no share is none at all.
def hasThreshold (r : RetentionRules) : Bool := 0.0 < r.threshold && r.threshold ≤ 100.0

def flaw? (r : RetentionRules) : Option Flaw :=
  (Flaw.ofZero r.ageHours (.notPositive "retention_age_hours")).or <|
  (if r.hasThreshold then none else some .thresholdOutOfRange).or <|
  Flaw.ofZero r.intervalSecs (.notPositive "sweep_interval_secs")

end RetentionRules

namespace Config

def standard : Config where
  slots := none
  queueCapacity := 100
  ttlHours := 24
  maxRetries := Job.defaultMaxRetries
  pollMillis := 100
  upkeepSecs := 300
  limits := [("metadata", ⟨100, 20⟩), ("download", ⟨10, 20⟩)]
  fallback := ⟨60, 10⟩
  retention := RetentionRules.standard

def ttl (c : Config) : Span := Span.ofHours c.ttlHours

def poll (c : Config) : Span := Span.ofMillis c.pollMillis

def upkeep (c : Config) : Span := Span.ofSecs c.upkeepSecs

def flaw? (c : Config) : Option Flaw :=
  (c.slots.bind (fun n => Flaw.ofZero n (.notPositive "max_concurrent"))).or <|
  (Flaw.ofZero c.queueCapacity (.notPositive "max_queue_size")).or <|
  (Flaw.ofZero c.ttlHours (.notPositive "job_ttl_hours")).or <|
  (Flaw.ofZero c.pollMillis (.notPositive "poll_interval_ms")).or <|
  (Flaw.ofZero c.upkeepSecs (.notPositive "maintenance_interval_secs")).or <|
  (c.limits.findSome? (fun entry => entry.2.flaw? entry.1)).or <|
  (c.fallback.flaw? "fallback").or <|
  c.retention.flaw?.map .ofRetention

end Config

end Foreman
