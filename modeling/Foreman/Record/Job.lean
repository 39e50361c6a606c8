import Foreman.Job.Basic
import Foreman.Json.Canonical
import Foreman.Json.Record

namespace Foreman

open Json (readNat readInt readFloat readString readVariant readWide readOption readParams)
open Json.Record (Field fields required optional)

namespace JobId

def toJson (id : JobId) : Json := .ofString id.text

def ofJson (j : Json) : Except Misfit JobId :=
  match Json.readString j with
  | .error misfit => .error misfit
  | .ok s => match ofText? s with
    | some id => .ok id
    | none => .error .other

end JobId

namespace Status

def toJson (s : Status) : Json := .ofString s.text

def ofJson : Json → Except Misfit Status := readVariant ofText?

end Status

namespace Outcome

def toJson (o : Outcome) : Json := .ofString o.text

def ofJson : Json → Except Misfit Outcome := readVariant ofText?

end Outcome

namespace Artifact

def toJson (a : Artifact) : Json :=
  .record [("path", .ofString a.path), ("size_bytes", .ofNat a.size),
    ("duration_seconds", .number (Decimal.shortestNumeral a.duration))]

def spec : List Field :=
  [Field.of "path" readString, Field.of "size_bytes" (readNat 64),
    Field.of "duration_seconds" readFloat]

def ofJson (j : Json) : Except Misfit Artifact := do
  let seen ← fields spec .ignored j
  return {
    path := ← required seen "path" readString
    size := ← required seen "size_bytes" (readNat 64)
    duration := ← required seen "duration_seconds" readFloat }

end Artifact

namespace Times

def toJson (t : Times) : Json :=
  .record [("created_at_ms", .ofNat t.created), ("started_at_ms", .ofOption .ofNat t.started),
    ("completed_at_ms", .ofOption .ofNat t.completed)]

def spec : List Field :=
  [Field.of "created_at_ms" readWide, Field.of "started_at_ms" (readOption readWide),
    Field.of "completed_at_ms" (readOption readWide)]

def ofJson (j : Json) : Except Misfit Times := do
  let seen ← fields spec .ignored j
  return {
    created := ← required seen "created_at_ms" readWide
    started := ← optional seen "started_at_ms" readWide
    completed := ← optional seen "completed_at_ms" readWide }

end Times

namespace Job

def toJson (j : Job) : Json :=
  .record [("id", j.id.toJson), ("params", .record j.params), ("status", j.status.toJson),
    ("progress", .ofNat j.progress), ("retry_count", .ofNat j.retries),
    ("max_retries", .ofNat j.maxRetries), ("priority", .ofOption .ofInt j.priority),
    ("error_message", .ofOption .ofString j.error), ("result", .ofOption Artifact.toJson j.result),
    ("timestamps", j.times.toJson), ("queue_position", .ofOption .ofNat j.position)]

-- Values in the parameters may be nested so deep, inside the job and the parameters.
def paramsDepth : Nat := Json.maxDepth - 2

def readPriority : Json → Except Misfit Int := readInt (-2147483648) 2147483647

def spec : List Field :=
  [Field.of "id" JobId.ofJson, Field.of "params" (readParams paramsDepth),
    Field.of "status" Status.ofJson, Field.of "progress" (readNat 8),
    Field.of "retry_count" (readNat 32), Field.of "max_retries" (readNat 32),
    Field.of "priority" (readOption readPriority),
    Field.of "error_message" (readOption readString),
    Field.of "result" (readOption Artifact.ofJson), Field.of "timestamps" Times.ofJson,
    Field.of "queue_position" (readOption (readNat 64))]

def ofJson (j : Json) : Except Misfit Job := do
  let seen ← fields spec .ignored j
  return {
    id := ← required seen "id" JobId.ofJson
    params := ← required seen "params" (readParams paramsDepth)
    status := ← required seen "status" Status.ofJson
    progress := ← required seen "progress" (readNat 8)
    retries := ← required seen "retry_count" (readNat 32)
    maxRetries := ← required seen "max_retries" (readNat 32)
    priority := ← optional seen "priority" readPriority
    error := ← optional seen "error_message" readString
    result := ← optional seen "result" Artifact.ofJson
    times := ← required seen "timestamps" Times.ofJson
    position := ← optional seen "queue_position" (readNat 64) }

end Job

end Foreman
