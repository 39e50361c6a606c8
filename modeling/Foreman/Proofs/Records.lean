import Foreman.Json.Printer
import Foreman.Proofs.Identity
import Foreman.Proofs.Json.Fields
import Foreman.Proofs.Json.Nesting
import Foreman.Proofs.Json.Printed
import Foreman.Record.Report

namespace Foreman

namespace Json

variable {α : Type} {toJson : α → Json} {ofJson : Json → Except Misfit α} {a : α}

-- A value is read from its text again, and what is read has the same text.
def Survives (toJson : α → Json) (ofJson : Json → Except Misfit α) (a : α) : Prop :=
  ∃ b, readText ofJson (toJson a).compact = .ok b ∧ b = a ∧ (toJson b).compact = (toJson a).compact

theorem survives_iff (h : (toJson a).IsWritten) :
    Survives toJson ofJson a ↔ ofJson (toJson a) = .ok a := by
  have htext := ofText?_compact h
  constructor
  · rintro ⟨b, hread, rfl, -⟩
    simp only [readText, htext] at hread
    split at hread
    · rename_i hok
      exact Except.ok.inj hread ▸ hok
    · cases hread
  · intro hread
    exact ⟨a, by simp only [readText, htext, hread], rfl, rfl⟩

theorem IsExact.isWritten {j : Json} (h : IsExact j) : IsWritten j := by
  induction h with
  | null => exact .null
  | bool b => exact .bool b
  | whole i _ _ => exact isWritten_ofInt i
  | text s => exact .text s
  | array items _ ih => exact .array items ih
  | object fields _ _ ih => exact isWritten_record ih

end Json

open Json
open Json.Record (Field fields fields_record required_of_lookup optional_of_lookup
  scanFields_nil_eq_ok_iff)

namespace JobId

theorem ofJson_toJson (id : JobId) : ofJson id.toJson = .ok id := by
  simp only [ofJson, toJson, readString, Json.ofString, ofText?_text]

end JobId

namespace Status

theorem ofJson_toJson (s : Status) : ofJson s.toJson = .ok s := by
  cases s <;> rfl

end Status

namespace Outcome

theorem ofJson_toJson (o : Outcome) : ofJson o.toJson = .ok o := by
  cases o <;> rfl

end Outcome

namespace Span

-- Fewer nanoseconds than make up a second, and no more seconds than can be counted.
structure InBounds (s : Span) : Prop where
  secs : s.secs ≤ maxSecs
  nanos : s.nanos < 1000000000

theorem isWritten_toJson (s : Span) : s.toJson.IsWritten :=
  isWritten_record (by simp [isWritten_ofNat])

theorem ofJson_toJson {s : Span} (h : s.InBounds) : ofJson s.toJson = .ok s := by
  have hsecs : readNat 64 (.ofNat s.secs) = .ok s.secs :=
    readNat_ofNat (Nat.lt_succ_of_le h.secs) (by decide)
  have hnanos : readNat 32 (.ofNat s.nanos) = .ok s.nanos :=
    readNat_ofNat (Nat.lt_trans h.nanos (by decide)) (by decide)
  have hfields : fields spec .refused s.toJson =
      .ok [("secs", .ofNat s.secs), ("nanos", .ofNat s.nanos)] :=
    fields_record (by decide) (.cons (Field.holds_of hsecs) (.cons (Field.holds_of hnanos) .nil))
  have hcarry : s.nanos / 1000000000 = 0 := Nat.div_eq_of_lt h.nanos
  have hrest : s.nanos % 1000000000 = s.nanos := Nat.mod_eq_of_lt h.nanos
  simp only [ofJson, hfields, bind_eq_ok_iff]
  refine ⟨_, rfl, _, required_of_lookup rfl hsecs, _, required_of_lookup rfl hnanos, ?_⟩
  rw [hcarry, hrest, Nat.add_zero, if_pos h.secs]
  rfl

end Span

namespace AttemptRecord

-- Numbers of a record are in bounds if they fit the widths of their fields.
structure InBounds (r : AttemptRecord) : Prop where
  attempt : r.attempt < twos 32
  duration : r.duration.InBounds
  recordedAt : r.recordedAt < twos 128

theorem isWritten_toJson (r : AttemptRecord) : r.toJson.IsWritten :=
  isWritten_record (by
    simp [isWritten_ofNat, r.duration.isWritten_toJson, JobId.toJson, Outcome.toJson,
      isWritten_ofString])

theorem ofJson_toJson {r : AttemptRecord} (h : r.InBounds) : ofJson r.toJson = .ok r := by
  have hattempt : readNat 32 (.ofNat r.attempt) = .ok r.attempt :=
    readNat_ofNat h.attempt (by decide)
  have hduration := Span.ofJson_toJson h.duration
  have hrecorded : readWide (.ofNat r.recordedAt) = .ok r.recordedAt := readWide_ofNat h.recordedAt
  have hfields : fields spec .ignored r.toJson = .ok _ :=
    fields_record (by decide)
      (.cons (Field.holds_of r.job.ofJson_toJson) (.cons (Field.holds_of hattempt)
      (.cons (Field.holds_of r.outcome.ofJson_toJson) (.cons (Field.holds_of hduration)
      (.cons (Field.holds_of hrecorded) .nil)))))
  simp only [ofJson, hfields, bind_eq_ok_iff]
  exact ⟨_, rfl, _, required_of_lookup rfl r.job.ofJson_toJson, _, required_of_lookup rfl hattempt,
    _, required_of_lookup rfl r.outcome.ofJson_toJson, _, required_of_lookup rfl hduration,
    _, required_of_lookup rfl hrecorded, rfl⟩

end AttemptRecord

namespace Times

structure InBounds (t : Times) : Prop where
  created : t.created < twos 128
  started : ∀ time ∈ t.started, time < twos 128
  completed : ∀ time ∈ t.completed, time < twos 128

theorem isWritten_toJson (t : Times) : t.toJson.IsWritten :=
  isWritten_record (by simp [isWritten_ofNat, isWritten_ofOption])

theorem levels_toJson (t : Times) : t.toJson.levels = 1 := by
  simp [toJson, levelsOfFields, levels_ofOption levels_ofNat]

theorem ofJson_toJson {t : Times} (h : t.InBounds) : ofJson t.toJson = .ok t := by
  have hread : ∀ {given : Option Nat}, (∀ n ∈ given, n < twos 128) →
      readOption readWide (.ofOption .ofNat given) = .ok given :=
    fun hgiven => readOption_ofOption (by simp [Json.ofNat])
      fun n hn => readWide_ofNat (hgiven n hn)
  have hcreated : readWide (.ofNat t.created) = .ok t.created := readWide_ofNat h.created
  have hstarted := hread h.started
  have hcompleted := hread h.completed
  have hfields : fields spec .ignored t.toJson = .ok _ :=
    fields_record (by decide)
      (.cons (Field.holds_of hcreated) (.cons (Field.holds_of hstarted)
      (.cons (Field.holds_of hcompleted) .nil)))
  simp only [ofJson, hfields, bind_eq_ok_iff]
  exact ⟨_, rfl, _, required_of_lookup rfl hcreated, _, optional_of_lookup rfl hstarted,
    _, optional_of_lookup rfl hcompleted, rfl⟩

end Times

namespace SweepReport

structure InBounds (r : SweepReport) : Prop where
  deleted : r.deleted < twos 64
  reclaimed : r.reclaimed < twos 64
  preserved : r.preserved < twos 64

theorem isWritten_toJson (r : SweepReport) : r.toJson.IsWritten :=
  isWritten_record (by simp [isWritten_ofNat])

theorem ofJson_toJson {r : SweepReport} (h : r.InBounds) : ofJson r.toJson = .ok r := by
  have hread : ∀ {n : Nat}, n < twos 64 → readNat 64 (.ofNat n) = .ok n :=
    fun hn => readNat_ofNat hn (by decide)
  have hfields : fields spec .ignored r.toJson = .ok _ :=
    fields_record (by decide)
      (.cons (Field.holds_of (hread h.deleted)) (.cons (Field.holds_of (hread h.reclaimed))
      (.cons (Field.holds_of (hread h.preserved)) .nil)))
  simp only [ofJson, hfields, bind_eq_ok_iff]
  exact ⟨_, rfl, _, required_of_lookup rfl (hread h.deleted),
    _, required_of_lookup rfl (hread h.reclaimed), _, required_of_lookup rfl (hread h.preserved),
    rfl⟩

end SweepReport

namespace Tally

structure InBounds (t : Tally) : Prop where
  attempts : t.attempts < twos 64
  completed : t.completed < twos 64
  retried : t.retried < twos 64
  failed : t.failed < twos 64
  skipped : t.skipped < twos 64
  inFlight : t.inFlight < twos 64

theorem isWritten_toJson (t : Tally) : t.toJson.IsWritten :=
  isWritten_record (by simp [isWritten_ofNat])

theorem ofJson_toJson {t : Tally} (h : t.InBounds) : ofJson t.toJson = .ok t := by
  have hread : ∀ {n : Nat}, n < twos 64 → readNat 64 (.ofNat n) = .ok n :=
    fun hn => readNat_ofNat hn (by decide)
  have hfields : fields spec .ignored t.toJson = .ok _ :=
    fields_record (by decide)
      (.cons (Field.holds_of (hread h.attempts)) (.cons (Field.holds_of (hread h.completed))
      (.cons (Field.holds_of (hread h.retried)) (.cons (Field.holds_of (hread h.failed))
      (.cons (Field.holds_of (hread h.skipped)) (.cons (Field.holds_of (hread h.inFlight))
      .nil))))))
  simp only [ofJson, hfields, bind_eq_ok_iff]
  exact ⟨_, rfl, _, required_of_lookup rfl (hread h.attempts),
    _, required_of_lookup rfl (hread h.completed), _, required_of_lookup rfl (hread h.retried),
    _, required_of_lookup rfl (hread h.failed), _, required_of_lookup rfl (hread h.skipped),
    _, required_of_lookup rfl (hread h.inFlight), rfl⟩

end Tally

namespace Job

structure InBounds (j : Job) : Prop where
  progress : j.progress < twos 8
  retries : j.retries < twos 32
  maxRetries : j.maxRetries < twos 32
  priority : ∀ p ∈ j.priority, -2147483648 ≤ p ∧ p ≤ 2147483647
  times : j.times.InBounds
  position : ∀ place ∈ j.position, place < twos 64

variable {j : Job}

theorem isWritten_toJson (hparams : j.params.IsExact) (hresult : j.result = none) :
    j.toJson.IsWritten := by
  have hrecord : (Json.record j.params).IsWritten :=
    isWritten_record fun field hfield => (hparams.exact field hfield).isWritten
  have hnone : (Json.ofOption Artifact.toJson j.result).IsWritten := by
    rw [hresult]
    exact .null
  exact isWritten_record (by
    simp [hrecord, hnone, isWritten_ofNat, isWritten_ofInt, isWritten_ofString, isWritten_ofOption,
      JobId.toJson, Status.toJson, j.times.isWritten_toJson])

-- The parameters are the deepest part of a job.
theorem levels_toJson (hresult : j.result = none) :
    j.toJson.levels = (Json.record j.params).levels + 1 := by
  have hparams : 1 ≤ (Json.record j.params).levels := Nat.le_add_left 1 _
  have hpriority := levels_ofOption levels_ofInt j.priority
  have herror := levels_ofOption levels_ofString j.error
  have hnone : (Json.ofOption Artifact.toJson j.result).levels = 0 := by
    rw [hresult]
    rfl
  have hposition := levels_ofOption levels_ofNat j.position
  rw [toJson, levels_record]
  simp only [levelsOfFields, List.map, JobId.toJson, Status.toJson, levels_ofString, levels_ofNat,
    hpriority, herror, hnone, j.times.levels_toJson, hposition]
  omega

theorem ofJson_toJson (h : j.InBounds) (hparams : j.params.IsExact) (hresult : j.result = none)
    (hdepth : (Json.record j.params).levels ≤ paramsDepth + 1) : ofJson j.toJson = .ok j := by
  have hheld : readParams paramsDepth (.record j.params) = .ok j.params := by
    rw [readParams_record hparams, if_pos hdepth]
  have hprogress : readNat 8 (.ofNat j.progress) = .ok j.progress :=
    readNat_ofNat h.progress (by decide)
  have hretries : readNat 32 (.ofNat j.retries) = .ok j.retries :=
    readNat_ofNat h.retries (by decide)
  have hmost : readNat 32 (.ofNat j.maxRetries) = .ok j.maxRetries :=
    readNat_ofNat h.maxRetries (by decide)
  have hpriority : readOption readPriority (.ofOption .ofInt j.priority) = .ok j.priority :=
    readOption_ofOption (by simp [Json.ofInt])
      fun p hp => readInt_ofInt (by decide) (by decide) (h.priority p hp)
  have herror : readOption readString (.ofOption .ofString j.error) = .ok j.error :=
    readOption_ofOption (by simp [Json.ofString]) fun _ _ => rfl
  have hnone : readOption Artifact.ofJson (.ofOption Artifact.toJson j.result) = .ok j.result := by
    rw [hresult]
    rfl
  have htimes := Times.ofJson_toJson h.times
  have hposition : readOption (readNat 64) (.ofOption .ofNat j.position) = .ok j.position :=
    readOption_ofOption (by simp [Json.ofNat])
      fun place hplace => readNat_ofNat (h.position place hplace) (by decide)
  have hfields : fields spec .ignored j.toJson = .ok _ :=
    fields_record (by decide)
      (.cons (Field.holds_of j.id.ofJson_toJson) (.cons (Field.holds_of hheld)
      (.cons (Field.holds_of j.status.ofJson_toJson) (.cons (Field.holds_of hprogress)
      (.cons (Field.holds_of hretries) (.cons (Field.holds_of hmost)
      (.cons (Field.holds_of hpriority) (.cons (Field.holds_of herror)
      (.cons (Field.holds_of hnone) (.cons (Field.holds_of htimes)
      (.cons (Field.holds_of hposition) .nil)))))))))))
  simp only [ofJson, hfields, bind_eq_ok_iff]
  exact ⟨_, rfl, _, required_of_lookup rfl j.id.ofJson_toJson, _, required_of_lookup rfl hheld,
    _, required_of_lookup rfl j.status.ofJson_toJson, _, required_of_lookup rfl hprogress,
    _, required_of_lookup rfl hretries, _, required_of_lookup rfl hmost,
    _, optional_of_lookup rfl hpriority, _, optional_of_lookup rfl herror,
    _, optional_of_lookup rfl hnone, _, required_of_lookup rfl htimes,
    _, optional_of_lookup rfl hposition, rfl⟩

theorem levels_le_of_ofJson_toJson (hparams : j.params.IsExact) {other : Job}
    (h : ofJson j.toJson = .ok other) : (Json.record j.params).levels ≤ paramsDepth + 1 := by
  obtain ⟨seen, hseen, -⟩ := bind_eq_ok_iff.mp h
  obtain ⟨hfits, -⟩ := (scanFields_nil_eq_ok_iff (by decide)).mp hseen
  have hcheck := hfits.checked (Field.of "params" (readParams paramsDepth)) (by simp [spec])
    ("params", .record j.params) (by simp) rfl
  obtain ⟨params, hread, -⟩ := map_eq_ok_iff.mp hcheck
  rw [readParams_record hparams] at hread
  split at hread
  · assumption
  · cases hread

-- One level is the job itself, and 126 are left for its parameters.
theorem ofJson_toJson_iff (h : j.InBounds) (hparams : j.params.IsExact)
    (hresult : j.result = none) : ofJson j.toJson = .ok j ↔ j.toJson.levels < 128 := by
  have hlimit : j.toJson.levels < 128 ↔ (Json.record j.params).levels ≤ paramsDepth + 1 := by
    rw [levels_toJson hresult]
    simp only [paramsDepth, maxDepth]
    omega
  rw [hlimit]
  exact ⟨levels_le_of_ofJson_toJson hparams, ofJson_toJson h hparams hresult⟩

end Job

-- Records are read from their texts as they were written, if all that they hold fits its place. A
-- job without a result is so just if no more than 127 values stand around one another in it.
theorem records_survive :
    (∀ r : AttemptRecord, r.InBounds → Survives AttemptRecord.toJson AttemptRecord.ofJson r) ∧
    (∀ t : Times, t.InBounds → Survives Times.toJson Times.ofJson t) ∧
    (∀ r : SweepReport, r.InBounds → Survives SweepReport.toJson SweepReport.ofJson r) ∧
    (∀ t : Tally, t.InBounds → Survives Tally.toJson Tally.ofJson t) ∧
    ∀ j : Job, j.InBounds → j.params.IsExact → j.result = none →
      (Survives Job.toJson Job.ofJson j ↔ j.toJson.levels < 128) := by
  refine ⟨fun r h => ?_, fun t h => ?_, fun r h => ?_, fun t h => ?_, fun j h hparams hresult => ?_⟩
  · exact (survives_iff r.isWritten_toJson).mpr (AttemptRecord.ofJson_toJson h)
  · exact (survives_iff t.isWritten_toJson).mpr (Times.ofJson_toJson h)
  · exact (survives_iff r.isWritten_toJson).mpr (SweepReport.ofJson_toJson h)
  · exact (survives_iff t.isWritten_toJson).mpr (Tally.ofJson_toJson h)
  · rw [survives_iff (Job.isWritten_toJson hparams hresult)]
    exact Job.ofJson_toJson_iff h hparams hresult

-- The widest numbers there are, values within the parameters, and a message of which hardly a
-- character is written as it stands.
theorem records_survive_extremes :
    Survives AttemptRecord.toJson AttemptRecord.ofJson
      ⟨⟨255⟩, 4294967295, .skipped, ⟨Span.maxSecs, 999999999⟩, twos 128 - 1⟩ ∧
    Survives Times.toJson Times.ofJson ⟨twos 128 - 1, none, some 0⟩ ∧
    Survives SweepReport.toJson SweepReport.ofJson ⟨0, twos 64 - 1, 7⟩ ∧
    Survives Tally.toJson Tally.ofJson ⟨5, 1, 1, 1, 2, twos 64 - 1⟩ ∧
    Survives Job.toJson Job.ofJson
      { id := ⟨255⟩
        params := [("", .array [.ofInt (-9223372036854775808), .ofInt 18446744073709551615]),
          ("aa", .record [("deep", .array [.null, .bool true])]), ("b", .ofString "\t\x22\\é")]
        status := .retrying
        progress := 255
        retries := 1
        maxRetries := 4294967295
        priority := some (-2147483648)
        error := some "\x00\n\x22\\/\x1f"
        result := none
        times := ⟨twos 128 - 1, some 0, none⟩
        position := some (twos 64 - 1) } := by
  obtain ⟨hattempt, htimes, hreport, htally, hjob⟩ := records_survive
  have hnumbers :
      (Json.array [.ofInt (-9223372036854775808), .ofInt 18446744073709551615]).IsExact :=
    .array _ (List.forall_mem_cons.mpr ⟨.whole _ (by decide) (by decide),
      List.forall_mem_singleton.mpr (.whole _ (by decide) (by decide))⟩)
  have hnested : (Json.record [("deep", .array [.null, .bool true])]).IsExact :=
    .object _ (by decide) (List.forall_mem_singleton.mpr
      (.array _ (List.forall_mem_cons.mpr ⟨.null, List.forall_mem_singleton.mpr (.bool true)⟩)))
  refine ⟨hattempt _ ⟨by decide, ⟨by decide, by decide⟩, by decide⟩,
    htimes _ ⟨by decide, by simp, by simp [twos]⟩, hreport _ ⟨by decide, by decide, by decide⟩,
    htally _ ⟨by decide, by decide, by decide, by decide, by decide, by decide⟩, ?_⟩
  refine (hjob _ ⟨by decide, by decide, by decide, by decide,
    ⟨by decide, by simp [twos], by simp⟩, by simp [twos]⟩ ⟨by decide, ?_⟩ rfl).mpr (by decide)
  exact List.forall_mem_cons.mpr ⟨hnumbers, List.forall_mem_cons.mpr ⟨hnested,
    List.forall_mem_singleton.mpr (.text _)⟩⟩

end Foreman
