import Foreman.Config.Reader
import Foreman.Proofs.Json.Fields
import Mathlib.Data.List.Permutation

namespace Foreman

open Json (IsNat IsString IsFloat bind_eq_ok_iff map_eq_ok_iff)
open Json.Record (Field Lists Gives Fits known fits_of_gives gives_map_iff gives_none
  defaulted_eq_ok_iff required_eq_ok_iff someFields_eq_ok_iff fields_eq_ok_iff)

namespace Limit

-- A limit has both its fields.
def IsLimit (j : Json) (limit : Limit) : Prop :=
  ∃ fields, Lists ["rpm", "burst_capacity"] j fields ∧
    Gives fields "rpm" (IsNat 32) (some limit.perMinute) ∧
    Gives fields "burst_capacity" (IsNat 32) (some limit.burst)

theorem ofJson_eq_ok_iff (j : Json) (limit : Limit) : ofJson j = .ok limit ↔ IsLimit j limit := by
  have hspec : (spec.map Field.key).Nodup := by decide
  have hnat := Json.readNat_eq_ok_iff 32 (by decide)
  simp only [ofJson, bind_eq_ok_iff, fields_eq_ok_iff, someFields_eq_ok_iff hspec]
  constructor
  · rintro ⟨_, ⟨⟨fields, hlists, hfits, rfl⟩, -⟩, perMinute, hrpm, burst, hburst, hlimit⟩
    obtain rfl := Except.ok.inj hlimit
    exact ⟨fields, hlists, (required_eq_ok_iff hfits (by decide) hnat).mp hrpm,
      (required_eq_ok_iff hfits (by decide) hnat).mp hburst⟩
  · rintro ⟨fields, hlists, hrpm, hburst⟩
    have hfits : Fits spec fields := by
      refine fits_of_gives ?_
      simp only [spec, List.forall_mem_cons, List.not_mem_nil, false_imp_iff,
        implies_true, and_true]
      exact ⟨hrpm.check hnat, hburst.check hnat⟩
    have hall : ∀ key ∈ spec.map Field.key, ∃ field ∈ fields, field.1 = key := by
      simp only [spec, List.map_cons, List.map_nil, List.forall_mem_cons, List.not_mem_nil,
        false_imp_iff, implies_true, and_true]
      exact ⟨hrpm.exists_mem, hburst.exists_mem⟩
    exact ⟨known spec fields,
      ⟨⟨fields, hlists, hfits, rfl⟩, fun _ => Json.Record.length_le_known hspec hall⟩,
      limit.perMinute, (required_eq_ok_iff hfits (by decide) hnat).mpr hrpm,
      limit.burst, (required_eq_ok_iff hfits (by decide) hnat).mpr hburst, rfl⟩

-- Of the limits of one category the last one counts.
def latest : List (String × Limit) → List (String × Limit)
  | [] => []
  | entry :: rest =>
    if rest.any (fun later => later.1 == entry.1) then latest rest else entry :: latest rest

-- A table has any number of categories, each with a limit.
def IsTable (j : Json) (table : List (String × Limit)) : Prop :=
  ∃ entries given, j = .record entries ∧
    List.Forall₂ (fun entry limit => entry.1 = limit.1 ∧ IsLimit entry.2 limit.2) entries given ∧
    table = latest given

theorem any_latest (given : List (String × Limit)) (category : String) :
    (latest given).any (fun entry => entry.1 == category) =
      given.any (fun entry => entry.1 == category) := by
  induction given with
  | nil => rfl
  | cons entry rest ih =>
    rw [latest]
    split
    · rename_i hlater
      rw [ih, List.any_cons]
      by_cases he : entry.1 = category
      · rw [← he, hlater, Bool.or_true]
      · simp [he]
    · rw [List.any_cons, List.any_cons, ih]

theorem tableOfFields_eq_ok_iff (fields : List (Option String × Json))
    (table : List (String × Limit)) :
    tableOfFields fields = .ok table ↔ IsTable (.object fields) table := by
  induction fields generalizing table with
  | nil =>
    constructor
    · intro h
      exact ⟨[], [], rfl, .nil, (Except.ok.inj h).symm⟩
    · rintro ⟨entries, given, hentries, hlimits, rfl⟩
      obtain rfl : entries = [] := by simpa [Json.record] using hentries
      cases hlimits
      rfl
  | cons field rest ih =>
    obtain ⟨key, j⟩ := field
    constructor
    · intro h
      cases key with
      | none => cases h
      | some category =>
        simp only [tableOfFields, bind_eq_ok_iff] at h
        obtain ⟨limit, hlimit, later, hlater, htable⟩ := h
        obtain ⟨entries, given, hentries, hlimits, rfl⟩ := (ih later).mp hlater
        obtain rfl : rest = entries.map fun entry => (some entry.1, entry.2) :=
          Json.object.inj hentries
        refine ⟨(category, j) :: entries, (category, limit) :: given, rfl,
          .cons ⟨rfl, (ofJson_eq_ok_iff j limit).mp hlimit⟩ hlimits, ?_⟩
        rw [any_latest] at htable
        exact (Except.ok.inj htable).symm
    · rintro ⟨entries, given, hentries, hlimits, rfl⟩
      cases hlimits with
      | nil => simp [Json.record] at hentries
      | @cons entry limit entries given hfirst hlimits =>
        obtain ⟨hentry, hrest⟩ := List.cons.inj (Json.object.inj hentries)
        obtain ⟨rfl, rfl⟩ := Prod.mk.inj hentry
        simp only [tableOfFields, bind_eq_ok_iff]
        refine ⟨limit.2, (ofJson_eq_ok_iff _ _).mpr hfirst.2, latest given,
          (ih _).mpr ⟨entries, given, congrArg Json.object hrest, hlimits, rfl⟩, ?_⟩
        rw [any_latest, hfirst.1]
        rfl

theorem tableOfJson_eq_ok_iff (j : Json) (table : List (String × Limit)) :
    tableOfJson j = .ok table ↔ IsTable j table := by
  cases j with
  | object fields => exact tableOfFields_eq_ok_iff fields table
  | _ => exact iff_of_false (by simp [tableOfJson]) (by simp [IsTable, Json.record])

structure Sound (limit : Limit) : Prop where
  perMinute : 0 < limit.perMinute
  burst : 0 < limit.burst

theorem flaw?_eq_none_iff (category : String) (limit : Limit) :
    limit.flaw? category = none ↔ limit.Sound := by
  simp only [flaw?, Flaw.ofZero, Option.or_eq_none_iff, ite_eq_right_iff, reduceCtorEq, imp_false,
    ← Nat.pos_iff_ne_zero]
  exact ⟨fun ⟨hrpm, hburst⟩ => ⟨hrpm, hburst⟩, fun h => ⟨h.perMinute, h.burst⟩⟩

end Limit

namespace RetentionRules

-- Those rules that are told. All others stay as they are.
structure Overlay where
  outputDir : Option String
  ageHours : Option Nat
  threshold : Option Float
  intervalSecs : Option Nat

def Overlay.onto (o : Overlay) (r : RetentionRules) : RetentionRules where
  outputDir := o.outputDir.getD r.outputDir
  ageHours := o.ageHours.getD r.ageHours
  threshold := o.threshold.getD r.threshold
  intervalSecs := o.intervalSecs.getD r.intervalSecs

structure Overlay.Given (o : Overlay) (fields : List (String × Json)) : Prop where
  outputDir : Gives fields "output_dir" IsString o.outputDir
  ageHours : Gives fields "retention_age_hours" (IsNat 64) o.ageHours
  threshold : Gives fields "cleanup_threshold_percent" IsFloat o.threshold
  intervalSecs : Gives fields "sweep_interval_secs" (IsNat 64) o.intervalSecs

def IsOverlay (j : Json) (o : Overlay) : Prop :=
  ∃ fields, Lists ["output_dir", "retention_age_hours", "cleanup_threshold_percent",
    "sweep_interval_secs"] j fields ∧ o.Given fields

theorem ofJson_eq_ok_iff (j : Json) (r : RetentionRules) :
    ofJson j = .ok r ↔ ∃ o, IsOverlay j o ∧ o.onto standard = r := by
  have hspec : (spec.map Field.key).Nodup := by decide
  have hnat := Json.readNat_eq_ok_iff 64 (by decide)
  have hstring := Json.readString_eq_ok_iff
  have hfloat := Json.readFloat_eq_ok_iff
  simp only [ofJson, bind_eq_ok_iff, someFields_eq_ok_iff hspec]
  constructor
  · rintro ⟨_, ⟨fields, hlists, hfits, rfl⟩, _, h₁, _, h₂, _, h₃, _, h₄, hr⟩
    obtain rfl := Except.ok.inj hr
    obtain ⟨outputDir, hdir, rfl⟩ := (defaulted_eq_ok_iff hfits (by decide) hstring).mp h₁
    obtain ⟨ageHours, hage, rfl⟩ := (defaulted_eq_ok_iff hfits (by decide) hnat).mp h₂
    obtain ⟨threshold, hthreshold, rfl⟩ := (defaulted_eq_ok_iff hfits (by decide) hfloat).mp h₃
    obtain ⟨intervalSecs, hinterval, rfl⟩ := (defaulted_eq_ok_iff hfits (by decide) hnat).mp h₄
    exact ⟨⟨outputDir, ageHours, threshold, intervalSecs⟩,
      ⟨fields, hlists, ⟨hdir, hage, hthreshold, hinterval⟩⟩, rfl⟩
  · rintro ⟨o, ⟨fields, hlists, hgiven⟩, rfl⟩
    have hfits : Fits spec fields := by
      refine fits_of_gives ?_
      simp only [spec, List.forall_mem_cons, List.not_mem_nil, false_imp_iff,
        implies_true, and_true]
      exact ⟨hgiven.outputDir.check hstring, hgiven.ageHours.check hnat,
        hgiven.threshold.check hfloat, hgiven.intervalSecs.check hnat⟩
    exact ⟨known spec fields, ⟨fields, hlists, hfits, rfl⟩,
      _, (defaulted_eq_ok_iff hfits (by decide) hstring).mpr ⟨_, hgiven.outputDir, rfl⟩,
      _, (defaulted_eq_ok_iff hfits (by decide) hnat).mpr ⟨_, hgiven.ageHours, rfl⟩,
      _, (defaulted_eq_ok_iff hfits (by decide) hfloat).mpr ⟨_, hgiven.threshold, rfl⟩,
      _, (defaulted_eq_ok_iff hfits (by decide) hnat).mpr ⟨_, hgiven.intervalSecs, rfl⟩, rfl⟩

structure Sound (r : RetentionRules) : Prop where
  ageHours : 0 < r.ageHours
  above : 0.0 < r.threshold
  below : r.threshold ≤ 100.0
  intervalSecs : 0 < r.intervalSecs

theorem flaw?_eq_none_iff (r : RetentionRules) : r.flaw? = none ↔ r.Sound := by
  simp only [flaw?, Flaw.ofZero, hasThreshold, Option.or_eq_none_iff, ite_eq_right_iff,
    ite_eq_left_iff, reduceCtorEq, imp_false, ← Nat.pos_iff_ne_zero, Bool.and_eq_true,
    decide_eq_true_eq, not_not]
  exact ⟨fun ⟨hage, ⟨habove, hbelow⟩, hinterval⟩ => ⟨hage, habove, hbelow, hinterval⟩,
    fun h => ⟨h.ageHours, ⟨h.above, h.below⟩, h.intervalSecs⟩⟩

end RetentionRules

namespace Config

-- What is told of a configuration. A table of limits and a limit are told as a whole.
structure Overlay where
  slots : Option Nat
  queueCapacity : Option Nat
  ttlHours : Option Nat
  maxRetries : Option Nat
  pollMillis : Option Nat
  upkeepSecs : Option Nat
  limits : Option (List (String × Limit))
  fallback : Option Limit
  retention : Option RetentionRules.Overlay

def Overlay.onto (o : Overlay) (c : Config) : Config where
  slots := o.slots.or c.slots
  queueCapacity := o.queueCapacity.getD c.queueCapacity
  ttlHours := o.ttlHours.getD c.ttlHours
  maxRetries := o.maxRetries.getD c.maxRetries
  pollMillis := o.pollMillis.getD c.pollMillis
  upkeepSecs := o.upkeepSecs.getD c.upkeepSecs
  limits := o.limits.getD c.limits
  fallback := o.fallback.getD c.fallback
  retention := (o.retention.map fun rules => rules.onto .standard).getD c.retention

structure Overlay.Given (o : Overlay) (fields : List (String × Json)) : Prop where
  slots : Gives fields "max_concurrent" (IsNat 32) o.slots
  queueCapacity : Gives fields "max_queue_size" (IsNat 64) o.queueCapacity
  ttlHours : Gives fields "job_ttl_hours" (IsNat 64) o.ttlHours
  maxRetries : Gives fields "default_max_retries" (IsNat 32) o.maxRetries
  pollMillis : Gives fields "poll_interval_ms" (IsNat 64) o.pollMillis
  upkeepSecs : Gives fields "maintenance_interval_secs" (IsNat 64) o.upkeepSecs
  limits : Gives fields "rate_limits" Limit.IsTable o.limits
  fallback : Gives fields "fallback_limit" Limit.IsLimit o.fallback
  retention : Gives fields "retention" RetentionRules.IsOverlay o.retention

variable {fields others : List (String × Json)} {o : Overlay} {c : Config} {text : String}

theorem spec_nodup : (spec.map Field.key).Nodup := by decide

theorem slotsOfJson_eq_ok_iff (j : Json) (slots : Option Nat) :
    slotsOfJson j = .ok slots ↔ ∃ n, IsNat 32 j n ∧ some n = slots := by
  simp only [slotsOfJson, map_eq_ok_iff, Json.readNat_eq_ok_iff 32 (by decide)]

theorem getD_map_some (given standard : Option Nat) :
    (given.map some).getD standard = given.or standard := by
  cases given <;> rfl

theorem Overlay.Given.slots_read (h : o.Given fields) : Gives fields "max_concurrent"
    (fun j slots => ∃ n, IsNat 32 j n ∧ some n = slots) (o.slots.map some) :=
  gives_map_iff.mpr ⟨o.slots, h.slots, rfl⟩

theorem Overlay.Given.retention_read (h : o.Given fields) : Gives fields "retention"
    (fun j r => ∃ rules, RetentionRules.IsOverlay j rules ∧ rules.onto .standard = r)
    (o.retention.map fun rules => rules.onto .standard) :=
  gives_map_iff.mpr ⟨o.retention, h.retention, rfl⟩

theorem Overlay.Given.fits (h : o.Given fields) : Fits spec fields := by
  have hnat := Json.readNat_eq_ok_iff 32 (by decide)
  have hlong := Json.readNat_eq_ok_iff 64 (by decide)
  refine fits_of_gives ?_
  simp only [spec, List.forall_mem_cons, List.not_mem_nil, false_imp_iff, implies_true, and_true]
  exact ⟨h.slots.check hnat, h.queueCapacity.check hlong, h.ttlHours.check hlong,
    h.maxRetries.check hnat, h.pollMillis.check hlong, h.upkeepSecs.check hlong,
    h.limits.check Limit.tableOfJson_eq_ok_iff, h.fallback.check Limit.ofJson_eq_ok_iff,
    h.retention_read.check RetentionRules.ofJson_eq_ok_iff⟩

-- A document is read if each field that it gives is given once and as it should be, and it is
-- read as the standard configuration with these fields in their places.
theorem ofJson_eq_ok_iff :
    ofJson (.record fields) = .ok c ↔ ∃ o : Overlay, o.Given fields ∧ o.onto standard = c := by
  have hnat := Json.readNat_eq_ok_iff 32 (by decide)
  have hlong := Json.readNat_eq_ok_iff 64 (by decide)
  have hscan : ∀ seen, Json.Record.someFields spec (.record fields) = .ok seen ↔
      Fits spec fields ∧ seen = known spec fields :=
    fun seen => Json.Record.scanFields_nil_eq_ok_iff spec_nodup
  simp only [ofJson, bind_eq_ok_iff, hscan]
  constructor
  · rintro ⟨_, ⟨hfits, rfl⟩, _, h₁, _, h₂, _, h₃, _, h₄, _, h₅, _, h₆, _, h₇, _, h₈, _, h₉, hc⟩
    obtain rfl := Except.ok.inj hc
    obtain ⟨_, hread, rfl⟩ := (defaulted_eq_ok_iff hfits (by decide) slotsOfJson_eq_ok_iff).mp h₁
    obtain ⟨slots, hslots, rfl⟩ := gives_map_iff.mp hread
    obtain ⟨queueCapacity, hqueue, rfl⟩ := (defaulted_eq_ok_iff hfits (by decide) hlong).mp h₂
    obtain ⟨ttlHours, httl, rfl⟩ := (defaulted_eq_ok_iff hfits (by decide) hlong).mp h₃
    obtain ⟨maxRetries, hretries, rfl⟩ := (defaulted_eq_ok_iff hfits (by decide) hnat).mp h₄
    obtain ⟨pollMillis, hpoll, rfl⟩ := (defaulted_eq_ok_iff hfits (by decide) hlong).mp h₅
    obtain ⟨upkeepSecs, hupkeep, rfl⟩ := (defaulted_eq_ok_iff hfits (by decide) hlong).mp h₆
    obtain ⟨limits, hlimits, rfl⟩ :=
      (defaulted_eq_ok_iff hfits (by decide) Limit.tableOfJson_eq_ok_iff).mp h₇
    obtain ⟨fallback, hfallback, rfl⟩ :=
      (defaulted_eq_ok_iff hfits (by decide) Limit.ofJson_eq_ok_iff).mp h₈
    obtain ⟨_, hrules, rfl⟩ :=
      (defaulted_eq_ok_iff hfits (by decide) RetentionRules.ofJson_eq_ok_iff).mp h₉
    obtain ⟨retention, hretention, rfl⟩ := gives_map_iff.mp hrules
    refine ⟨⟨slots, queueCapacity, ttlHours, maxRetries, pollMillis, upkeepSecs, limits, fallback,
      retention⟩, ⟨hslots, hqueue, httl, hretries, hpoll, hupkeep, hlimits, hfallback, hretention⟩,
      ?_⟩
    rw [getD_map_some]
    rfl
  · rintro ⟨o, hgiven, rfl⟩
    have hfits := hgiven.fits
    refine ⟨known spec fields, ⟨hfits, rfl⟩,
      _, (defaulted_eq_ok_iff hfits (by decide) slotsOfJson_eq_ok_iff).mpr
        ⟨_, hgiven.slots_read, rfl⟩,
      _, (defaulted_eq_ok_iff hfits (by decide) hlong).mpr ⟨_, hgiven.queueCapacity, rfl⟩,
      _, (defaulted_eq_ok_iff hfits (by decide) hlong).mpr ⟨_, hgiven.ttlHours, rfl⟩,
      _, (defaulted_eq_ok_iff hfits (by decide) hnat).mpr ⟨_, hgiven.maxRetries, rfl⟩,
      _, (defaulted_eq_ok_iff hfits (by decide) hlong).mpr ⟨_, hgiven.pollMillis, rfl⟩,
      _, (defaulted_eq_ok_iff hfits (by decide) hlong).mpr ⟨_, hgiven.upkeepSecs, rfl⟩,
      _, (defaulted_eq_ok_iff hfits (by decide) Limit.tableOfJson_eq_ok_iff).mpr
        ⟨_, hgiven.limits, rfl⟩,
      _, (defaulted_eq_ok_iff hfits (by decide) Limit.ofJson_eq_ok_iff).mpr
        ⟨_, hgiven.fallback, rfl⟩,
      _, (defaulted_eq_ok_iff hfits (by decide) RetentionRules.ofJson_eq_ok_iff).mpr
        ⟨_, hgiven.retention_read, rfl⟩, ?_⟩
    rw [getD_map_some]
    rfl

-- A document says the same in any order, and with anything else in it.
theorem Overlay.Given.of_perm (h : o.Given fields)
    (hperm : (known spec others).Perm (known spec fields)) : o.Given others where
  slots := h.slots.of_perm (by decide) hperm
  queueCapacity := h.queueCapacity.of_perm (by decide) hperm
  ttlHours := h.ttlHours.of_perm (by decide) hperm
  maxRetries := h.maxRetries.of_perm (by decide) hperm
  pollMillis := h.pollMillis.of_perm (by decide) hperm
  upkeepSecs := h.upkeepSecs.of_perm (by decide) hperm
  limits := h.limits.of_perm (by decide) hperm
  fallback := h.fallback.of_perm (by decide) hperm
  retention := h.retention.of_perm (by decide) hperm

-- The rules of a configuration.
structure Sound (c : Config) : Prop where
  slots : ∀ n ∈ c.slots, 0 < n
  queueCapacity : 0 < c.queueCapacity
  ttlHours : 0 < c.ttlHours
  pollMillis : 0 < c.pollMillis
  upkeepSecs : 0 < c.upkeepSecs
  limits : ∀ entry ∈ c.limits, entry.2.Sound
  fallback : c.fallback.Sound
  retention : c.retention.Sound

theorem flaw?_eq_none_iff (c : Config) : c.flaw? = none ↔ c.Sound := by
  simp only [flaw?, Flaw.ofZero, Option.or_eq_none_iff, ite_eq_right_iff, reduceCtorEq, imp_false,
    ← Nat.pos_iff_ne_zero, Option.bind_eq_none_iff, List.findSome?_eq_none_iff,
    Limit.flaw?_eq_none_iff, Option.map_eq_none_iff, RetentionRules.flaw?_eq_none_iff]
  exact ⟨fun ⟨hslots, hqueue, httl, hpoll, hupkeep, hlimits, hfallback, hretention⟩ =>
      ⟨hslots, hqueue, httl, hpoll, hupkeep, hlimits, hfallback, hretention⟩,
    fun h => ⟨h.slots, h.queueCapacity, h.ttlHours, h.pollMillis, h.upkeepSecs, h.limits,
      h.fallback, h.retention⟩⟩

theorem ofText_of_given (htext : Json.ofText? text = some (.record fields))
    (hgiven : o.Given fields) : ofText text =
      (o.onto standard).flaw?.elim (.ok (o.onto standard)) fun flaw => .error (.flawed flaw) := by
  have hread : ofJson (.record fields) = .ok (o.onto standard) :=
    ofJson_eq_ok_iff.mpr ⟨o, hgiven, rfl⟩
  cases hflaw : (o.onto standard).flaw? with
  | none => simp only [ofText, Json.readText, htext, hread, hflaw, Option.elim]
  | some flaw => simp only [ofText, Json.readText, htext, hread, hflaw, Option.elim]

theorem ofText_eq_ok_iff (htext : Json.ofText? text = some (.record fields)) :
    ofText text = .ok c ↔ ∃ o : Overlay, o.Given fields ∧ o.onto standard = c ∧ c.Sound := by
  constructor
  · intro h
    simp only [ofText, Json.readText, htext] at h
    cases hread : ofJson (.record fields) with
    | error misfit => simp [hread] at h
    | ok read =>
      simp only [hread] at h
      cases hflaw : read.flaw? with
      | some flaw => simp [hflaw] at h
      | none =>
        simp only [hflaw, Except.ok.injEq] at h
        obtain ⟨o, hgiven, honto⟩ := ofJson_eq_ok_iff.mp hread
        exact ⟨o, hgiven, honto.trans h, h ▸ (flaw?_eq_none_iff read).mp hflaw⟩
  · rintro ⟨o, hgiven, rfl, hsound⟩
    rw [ofText_of_given htext hgiven, (flaw?_eq_none_iff _).mpr hsound, Option.elim]

-- A document, which is an object all of whose names are texts, is laid over the standard
-- configuration. The result is taken if it is sound, and it depends on nothing but what the known
-- fields say, in whatever order and spelling. A document that says something else in a known field,
-- or says it twice, is not taken at all.
theorem ofText_overlays (htext : Json.ofText? text = some (.record fields)) :
    (∀ c, ofText text = .ok c ↔
      ∃ o : Overlay, o.Given fields ∧ o.onto standard = c ∧ c.Sound) ∧
    ∀ o : Overlay, o.Given fields →
      (ofText text = .ok (o.onto standard) ↔ (o.onto standard).Sound) ∧
      (∀ c, ofText text = .ok c → c = o.onto standard) ∧
      (∀ reordered others, Json.ofText? reordered = some (.record others) →
        (known spec others).Perm (known spec fields) → ofText reordered = ofText text) ∧
      ∀ rewritten others, Json.ofText? rewritten = some (.record others) → o.Given others →
        ofText rewritten = ofText text := by
  refine ⟨fun c => ofText_eq_ok_iff htext, fun o hgiven => ?_⟩
  have hresult := ofText_of_given htext hgiven
  have hsame : ∀ rewritten others, Json.ofText? rewritten = some (.record others) →
      o.Given others → ofText rewritten = ofText text := by
    intro rewritten others hothers hagain
    rw [ofText_of_given hothers hagain, hresult]
  refine ⟨?_, ?_, ?_, hsame⟩
  · rw [hresult, ← flaw?_eq_none_iff]
    cases (o.onto standard).flaw? <;> simp
  · intro c hc
    rw [hresult] at hc
    cases hflaw : (o.onto standard).flaw? with
    | some flaw => simp [hflaw] at hc
    | none => simpa [hflaw] using hc.symm
  · intro reordered others hothers hperm
    exact hsame reordered others hothers (hgiven.of_perm hperm)

def note : String :=
  "\x7b\"note\": [1], \"retention\": \x7b\"output_dir\": \"videos\"\x7d, \"max_queue_size\": 5\x7d"

def noteFields : List (String × Json) :=
  [("note", .array [.ofNat 1]), ("retention", .record [("output_dir", .ofString "videos")]),
    ("max_queue_size", .ofNat 5)]

def noteOverlay : Overlay where
  slots := none
  queueCapacity := some 5
  ttlHours := none
  maxRetries := none
  pollMillis := none
  upkeepSecs := none
  limits := none
  fallback := none
  retention := some ⟨some "videos", none, none, none⟩

theorem ofText_overlays_note :
    Json.ofText? note = some (.record noteFields) ∧ noteOverlay.Given noteFields ∧
      ofText note = .ok { standard with
        queueCapacity := 5
        retention := { RetentionRules.standard with outputDir := "videos" } } := by
  have htext : Json.ofText? note = some (.record noteFields) := by cbv
  have hrules : RetentionRules.Overlay.Given ⟨some "videos", none, none, none⟩
      [("output_dir", .ofString "videos")] :=
    ⟨⟨_, rfl, rfl⟩, gives_none (by decide), gives_none (by decide), gives_none (by decide)⟩
  have hgiven : noteOverlay.Given noteFields :=
    ⟨gives_none (by decide), ⟨_, rfl, rfl, by decide⟩, gives_none (by decide),
      gives_none (by decide), gives_none (by decide), gives_none (by decide),
      gives_none (by decide), gives_none (by decide), ⟨_, rfl, _, .object _, hrules⟩⟩
  have hlimits : ∀ entry ∈ standard.limits, entry.2.Sound := by
    simp only [standard, List.forall_mem_cons, List.not_mem_nil, false_imp_iff, implies_true,
      and_true]
    exact ⟨⟨by decide, by decide⟩, ⟨by decide, by decide⟩⟩
  have hsound : (noteOverlay.onto standard).Sound :=
    ⟨by decide, by decide, by decide, by decide, by decide, hlimits, ⟨by decide, by decide⟩,
      ⟨by decide, by decide, by decide, by decide⟩⟩
  exact ⟨htext, hgiven, ((ofText_overlays htext).2 noteOverlay hgiven).1.mpr hsound⟩

end Config

end Foreman
