import Foreman.Audit
import Foreman.Config.Reader
import Foreman.Engine.Tally
import Foreman.Rate.Bucket
import Foreman.Record.Job
import Foreman.Retention

namespace Foreman

open Json (readNat readBool readFloat readWide)
open Json.Record (Field fields required)

namespace Span

def toJson (s : Span) : Json := .record [("secs", .ofNat s.secs), ("nanos", .ofNat s.nanos)]

def spec : List Field := [Field.of "secs" (readNat 64), Field.of "nanos" (readNat 32)]

-- Nanoseconds that make up a second count as one, as long as there is room for it.
def ofJson (j : Json) : Except Misfit Span := do
  let seen ← fields spec .refused j
  let secs ← required seen "secs" (readNat 64)
  let nanos ← required seen "nanos" (readNat 32)
  if secs + nanos / 1000000000 ≤ maxSecs then
    return ⟨secs + nanos / 1000000000, nanos % 1000000000⟩
  else throw .other

end Span

namespace AttemptRecord

def toJson (r : AttemptRecord) : Json :=
  .record [("job_id", r.job.toJson), ("attempt", .ofNat r.attempt),
    ("outcome", r.outcome.toJson), ("duration", r.duration.toJson),
    ("recorded_at_ms", .ofNat r.recordedAt)]

def spec : List Field :=
  [Field.of "job_id" JobId.ofJson, Field.of "attempt" (readNat 32),
    Field.of "outcome" Outcome.ofJson, Field.of "duration" Span.ofJson,
    Field.of "recorded_at_ms" readWide]

def ofJson (j : Json) : Except Misfit AttemptRecord := do
  let seen ← fields spec .ignored j
  return {
    job := ← required seen "job_id" JobId.ofJson
    attempt := ← required seen "attempt" (readNat 32)
    outcome := ← required seen "outcome" Outcome.ofJson
    duration := ← required seen "duration" Span.ofJson
    recordedAt := ← required seen "recorded_at_ms" readWide }

end AttemptRecord

namespace SweepReport

def toJson (r : SweepReport) : Json :=
  .record [("files_deleted", .ofNat r.deleted), ("bytes_reclaimed", .ofNat r.reclaimed),
    ("files_preserved", .ofNat r.preserved)]

def spec : List Field :=
  [Field.of "files_deleted" (readNat 64), Field.of "bytes_reclaimed" (readNat 64),
    Field.of "files_preserved" (readNat 64)]

def ofJson (j : Json) : Except Misfit SweepReport := do
  let seen ← fields spec .ignored j
  return {
    deleted := ← required seen "files_deleted" (readNat 64)
    reclaimed := ← required seen "bytes_reclaimed" (readNat 64)
    preserved := ← required seen "files_preserved" (readNat 64) }

end SweepReport

namespace Tally

def toJson (t : Tally) : Json :=
  .record [("attempts", .ofNat t.attempts), ("completed", .ofNat t.completed),
    ("retried", .ofNat t.retried), ("failed", .ofNat t.failed), ("skipped", .ofNat t.skipped),
    ("in_flight", .ofNat t.inFlight)]

def spec : List Field :=
  [Field.of "attempts" (readNat 64), Field.of "completed" (readNat 64),
    Field.of "retried" (readNat 64), Field.of "failed" (readNat 64),
    Field.of "skipped" (readNat 64), Field.of "in_flight" (readNat 64)]

def ofJson (j : Json) : Except Misfit Tally := do
  let seen ← fields spec .ignored j
  return {
    attempts := ← required seen "attempts" (readNat 64)
    completed := ← required seen "completed" (readNat 64)
    retried := ← required seen "retried" (readNat 64)
    failed := ← required seen "failed" (readNat 64)
    skipped := ← required seen "skipped" (readNat 64)
    inFlight := ← required seen "in_flight" (readNat 64) }

end Tally

namespace Load

def toJson (l : Load) : Json :=
  .record [("queue_size", .ofNat l.queued), ("max_queue_size", .ofNat l.queueCapacity),
    ("active_slots", .ofNat l.slotsInUse), ("max_concurrent", .ofNat l.slots),
    ("pending", .ofNat l.pending), ("processing", .ofNat l.processing),
    ("retrying", .ofNat l.retrying), ("completed", .ofNat l.completed),
    ("failed", .ofNat l.failed), ("dispatcher", l.tally.toJson)]

def spec : List Field :=
  [Field.of "queue_size" (readNat 64), Field.of "max_queue_size" (readNat 64),
    Field.of "active_slots" (readNat 32), Field.of "max_concurrent" (readNat 32),
    Field.of "pending" (readNat 64), Field.of "processing" (readNat 64),
    Field.of "retrying" (readNat 64), Field.of "completed" (readNat 64),
    Field.of "failed" (readNat 64), Field.of "dispatcher" Tally.ofJson]

def ofJson (j : Json) : Except Misfit Load := do
  let seen ← fields spec .ignored j
  return {
    queued := ← required seen "queue_size" (readNat 64)
    queueCapacity := ← required seen "max_queue_size" (readNat 64)
    slotsInUse := ← required seen "active_slots" (readNat 32)
    slots := ← required seen "max_concurrent" (readNat 32)
    pending := ← required seen "pending" (readNat 64)
    processing := ← required seen "processing" (readNat 64)
    retrying := ← required seen "retrying" (readNat 64)
    completed := ← required seen "completed" (readNat 64)
    failed := ← required seen "failed" (readNat 64)
    tally := ← required seen "dispatcher" Tally.ofJson }

end Load

namespace Health

def toJson (h : Health) : Json :=
  .record [("ok", .bool h.isRunning), ("saturated", .bool h.isSaturated)]

def spec : List Field := [Field.of "ok" readBool, Field.of "saturated" readBool]

def ofJson (j : Json) : Except Misfit Health := do
  let seen ← fields spec .ignored j
  return ⟨← required seen "ok" readBool, ← required seen "saturated" readBool⟩

end Health

namespace Decision

def toJson (d : Decision Float) : Json :=
  .record [("allowed", .bool d.allowed),
    ("retry_after_secs", .ofOption (fun x => .number (Decimal.shortestNumeral x)) d.wait)]

def spec : List Field := [Field.of "allowed" readBool, Field.of "retry_after_secs" readFloat]

def ofJson (j : Json) : Except Misfit (Decision Float) := do
  let seen ← fields spec .ignored j
  return ⟨← required seen "allowed" readBool,
    some (← required seen "retry_after_secs" readFloat)⟩

end Decision

namespace RetentionRules

def toJson (r : RetentionRules) : Json :=
  .record [("output_dir", .ofString r.outputDir), ("retention_age_hours", .ofNat r.ageHours),
    ("cleanup_threshold_percent", .number (Decimal.shortestNumeral r.threshold)),
    ("sweep_interval_secs", .ofNat r.intervalSecs)]

end RetentionRules

end Foreman
