import Foreman.Config.Basic
import Foreman.Json.Canonical
import Foreman.Json.Record

namespace Foreman

open Json (readNat readFloat readString)
open Json.Record (Field fields someFields required defaulted)

namespace Limit

def spec : List Field :=
  [Field.of "rpm" (readNat 32), Field.of "burst_capacity" (readNat 32)]

def ofJson (j : Json) : Except Misfit Limit := do
  let seen ← fields spec .ignored j
  return ⟨← required seen "rpm" (readNat 32), ← required seen "burst_capacity" (readNat 32)⟩

def toJson (limit : Limit) : Json :=
  .record [("rpm", .ofNat limit.perMinute), ("burst_capacity", .ofNat limit.burst)]

def tableOfFields : List (Option String × Json) → Except Misfit (List (String × Limit))
  | [] => .ok []
  | (none, _) :: _ => .error .other
  | (some category, j) :: rest => do
    let limit ← ofJson j
    let table ← tableOfFields rest
    return if table.any (fun entry => entry.1 == category) then table
      else (category, limit) :: table

def tableOfJson : Json → Except Misfit (List (String × Limit))
  | .object entries => tableOfFields entries
  | _ => .error .wrongType

def tableToJson (table : List (String × Limit)) : Json :=
  .record (table.map (fun entry => (entry.1, entry.2.toJson)))

end Limit

namespace RetentionRules

def spec : List Field :=
  [Field.of "output_dir" readString, Field.of "retention_age_hours" (readNat 64),
    Field.of "cleanup_threshold_percent" readFloat, Field.of "sweep_interval_secs" (readNat 64)]

def ofJson (j : Json) : Except Misfit RetentionRules := do
  let seen ← someFields spec j
  return {
    outputDir := ← defaulted seen "output_dir" readString standard.outputDir
    ageHours := ← defaulted seen "retention_age_hours" (readNat 64) standard.ageHours
    threshold := ← defaulted seen "cleanup_threshold_percent" readFloat standard.threshold
    intervalSecs := ← defaulted seen "sweep_interval_secs" (readNat 64) standard.intervalSecs }

end RetentionRules

inductive ConfigFault where
  | unreadable (fault : TextFault)
  | flawed (flaw : Flaw)
  deriving DecidableEq, Repr, Inhabited

namespace Config

def spec : List Field :=
  [Field.of "max_concurrent" (readNat 32), Field.of "max_queue_size" (readNat 64),
    Field.of "job_ttl_hours" (readNat 64), Field.of "default_max_retries" (readNat 32),
    Field.of "poll_interval_ms" (readNat 64), Field.of "maintenance_interval_secs" (readNat 64),
    Field.of "rate_limits" Limit.tableOfJson, Field.of "fallback_limit" Limit.ofJson,
    Field.of "retention" RetentionRules.ofJson]

def slotsOfJson (j : Json) : Except Misfit (Option Nat) := (readNat 32 j).map some

-- Whatever is left out is as in the standard configuration. A table of limits replaces the
-- standard one as a whole.
def ofJson (j : Json) : Except Misfit Config := do
  let seen ← someFields spec j
  return {
    slots := ← defaulted seen "max_concurrent" slotsOfJson standard.slots
    queueCapacity := ← defaulted seen "max_queue_size" (readNat 64) standard.queueCapacity
    ttlHours := ← defaulted seen "job_ttl_hours" (readNat 64) standard.ttlHours
    maxRetries := ← defaulted seen "default_max_retries" (readNat 32) standard.maxRetries
    pollMillis := ← defaulted seen "poll_interval_ms" (readNat 64) standard.pollMillis
    upkeepSecs := ← defaulted seen "maintenance_interval_secs" (readNat 64) standard.upkeepSecs
    limits := ← defaulted seen "rate_limits" Limit.tableOfJson standard.limits
    fallback := ← defaulted seen "fallback_limit" Limit.ofJson standard.fallback
    retention := ← defaulted seen "retention" RetentionRules.ofJson standard.retention }

def ofText (s : String) : Except ConfigFault Config :=
  match Json.readText ofJson s with
  | .error fault => .error (.unreadable fault)
  | .ok c => match c.flaw? with
    | some flaw => .error (.flawed flaw)
    | none => .ok c

end Config

end Foreman
