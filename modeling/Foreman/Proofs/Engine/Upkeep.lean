import Foreman.Engine.Blueprint
import Foreman.Proofs.Engine.Crew
import Foreman.Proofs.Engine.Lineup
import Foreman.Proofs.Engine.Timing
import Mathlib.Algebra.Order.Floor.Div

namespace Foreman

namespace Span

variable {time later : Nat}

theorem InRange.mono (h : InRange later) (hle : time ≤ later) : InRange time :=
  Nat.lt_of_le_of_lt hle h

theorem roundAfter_of_inRange {span : Span} (h : InRange (time + span.toMillis)) :
    span.roundAfter time = time + span.toMillis := if_pos h

theorem le_roundAfter (span : Span) (time : Nat) : time ≤ span.roundAfter time := by
  unfold roundAfter
  split
  · exact Nat.le_add_right _ _
  · exact Nat.le_add_right _ _

end Span

namespace Config

-- The time of a round of upkeep that begins at `first`, if all rounds keep to the rules.
def beat (c : Config) (first round : Nat) : Nat := first + round * c.upkeep.toMillis

variable {c : Config} {first round later : Nat}

theorem beat_mono (h : round ≤ later) : c.beat first round ≤ c.beat first later :=
  Nat.add_le_add_left (Nat.mul_le_mul_right _ h) _

theorem beat_succ : c.beat first (round + 1) = c.beat first round + c.upkeep.toMillis := by
  simp only [beat, Nat.succ_mul, Nat.add_assoc]

end Config

namespace Engine

-- What happens to an engine or around it. Files change at any time, and so does how full their
-- volume is.
inductive Occurrence where
  | move (move : Move)
  | outside (probe : Probe) (files : Tree)

-- A round of upkeep: when it was, whether the volume was too full, and whether it came to a sweep.
structure Tick where
  time : Nat
  pressed : Bool
  swept : Bool
  deriving DecidableEq, Repr

def lastSweep (first : Nat) (ticks : List Tick) : Nat :=
  ((ticks.filter Tick.swept).getLast?.map Tick.time).getD first

namespace State

def meet (s : State) : Occurrence → State
  | .move move => s.apply move
  | .outside probe files => { s with probe := probe, files := files }

def tick? (s : State) : Occurrence → Option Tick
  | .move .maintain => match s.upkeep with
    | some upkeep =>
      if upkeep.due ≤ s.now then
        some ⟨s.now, s.hasPressure, s.tidied.isSweepDue upkeep.swept⟩
      else none
    | none => none
  | _ => none

-- All rounds of upkeep, in their order.
def ticks (s : State) : List Occurrence → List Tick
  | [] => []
  | occurrence :: rest => (s.tick? occurrence).toList ++ (s.meet occurrence).ticks rest

end State

variable {rules : Config} {first : Nat} {ticks before : List Tick} {tick : Tick}

-- What a round is after those before it.
structure Timely (rules : Config) (first : Nat) (before : List Tick) (tick : Tick) : Prop where
  time_eq : Span.InRange (rules.beat first before.length) →
    tick.time = rules.beat first before.length
  swept_iff : tick.swept = true ↔ tick.pressed = true ∨
    rules.retention.interval.toMillis ≤ tick.time - lastSweep first before

def Regular (rules : Config) (first : Nat) (ticks : List Tick) : Prop :=
  ∀ before tick, before ++ [tick] <+: ticks → Timely rules first before tick

theorem Regular.snoc (h : Regular rules first ticks) (htick : Timely rules first ticks tick) :
    Regular rules first (ticks ++ [tick]) := by
  intro before other hpart
  rcases List.prefix_concat_iff.mp hpart with heq | hold
  · obtain ⟨rfl, hother⟩ := List.append_inj' heq rfl
    rw [List.singleton_inj.mp hother]
    exact htick
  · exact h before other hold

theorem lastSweep_concat : lastSweep first (ticks ++ [tick]) =
    if tick.swept then tick.time else lastSweep first ticks := by
  cases hswept : tick.swept with
  | true => simp [lastSweep, List.filter_append, hswept]
  | false => simp [lastSweep, List.filter_append, hswept]

namespace Regular

variable (hregular : Regular rules first ticks) (hperiod : 0 < rules.upkeep.toMillis)
  (hinterval : 0 < rules.retention.interval.toMillis)

include hregular hperiod hinterval

end Regular

namespace State

variable {s : State} {upkeep : Upkeep} {occurrence : Occurrence}

theorem upkeep_apply {move : Move} (hupkeep : s.upkeep = some upkeep) (hmaintain : move ≠ .maintain)
    (hstop : move ≠ .stop) : (s.apply move).upkeep = some upkeep := by
  cases htimed : move.isTimed with
  | false =>
    have hsame : (s.timed s.poll s.upkeep).apply move = (s.apply move).timed s.poll s.upkeep :=
      timed_apply htimed
    rw [timed_self] at hsame
    rw [hsame]
    exact hupkeep
  | true =>
    cases move with
    | start => simp [apply, start, hupkeep]
    | stop => exact absurd rfl hstop
    | poll =>
      simp only [apply]
      split
      · split
        · exact (burstWithin_clock s.queue.length s).2.2.2.trans hupkeep
        · exact hupkeep
      · exact hupkeep
    | maintain => exact absurd rfl hmaintain
    | pass now => exact (idle_pass now).2.trans hupkeep
    | _ => cases htimed

-- Time does not pass beyond the next round.
theorem now_apply_le {move : Move} (hupkeep : s.upkeep = some upkeep) (hdue : s.now ≤ upkeep.due) :
    (s.apply move).now ≤ upkeep.due := by
  by_cases hpass : ∃ now, move = .pass now
  · obtain ⟨now, rfl⟩ := hpass
    simp only [apply, pass]
    split
    · rename_i hallowed
      obtain ⟨callers, heq, -⟩ := exists_expireCallers_eq { s with now := now }
      rw [heq]
      refine all_min?_iff.mp hallowed.2 upkeep.due ?_
      simp [hupkeep]
    · exact hdue
  · rw [(s.keepsTime_apply move fun now heq => hpass ⟨now, heq⟩).now]
    exact hdue

-- An occurrence is a round of upkeep, or leaves upkeep as it is.
theorem meet_cases (hupkeep : s.upkeep = some upkeep) (hstop : occurrence ≠ .move .stop) :
    (upkeep.due ≤ s.now ∧
      s.tick? occurrence = some ⟨s.now, s.hasPressure, s.tidied.isSweepDue upkeep.swept⟩ ∧
      s.meet occurrence = s.maintain upkeep) ∨
    (s.tick? occurrence = none ∧ (s.meet occurrence).upkeep = some upkeep ∧
      (s.now ≤ upkeep.due → (s.meet occurrence).now ≤ upkeep.due) ∧
      (s.meet occurrence).config = s.config ∧
      (occurrence = .move .maintain → s.meet occurrence = s)) := by
  cases occurrence with
  | outside probe files => exact .inr ⟨rfl, hupkeep, id, rfl, by simp⟩
  | move move =>
    by_cases hmaintain : move = .maintain
    · subst hmaintain
      by_cases hdue : upkeep.due ≤ s.now
      · exact .inl ⟨hdue, by simp [tick?, hupkeep, hdue], by simp [meet, apply, hupkeep, hdue]⟩
      · have hsame : s.meet (.move .maintain) = s := by simp [meet, apply, hupkeep, hdue]
        rw [hsame]
        exact .inr ⟨by simp [tick?, hupkeep, hdue], hupkeep, id, rfl, fun _ => rfl⟩
    · have hnone : s.tick? (.move move) = none := by
        cases move with
        | maintain => exact absurd rfl hmaintain
        | _ => rfl
      refine .inr ⟨hnone, upkeep_apply hupkeep hmaintain ?_, now_apply_le hupkeep,
        (s.proceeds_apply move).config, fun heq => absurd (Occurrence.move.inj heq) hmaintain⟩
      rintro rfl
      exact hstop rfl

-- The next round is set for its beat, and the last sweep is known.
structure OnTime (rules : Config) (first : Nat) (ticks : List Tick) (s : State) : Prop where
  config : s.config = rules
  next : ∃ due, s.upkeep = some ⟨due, lastSweep first ticks⟩ ∧ s.now ≤ due ∧
    (Span.InRange (rules.beat first ticks.length) → due = rules.beat first ticks.length)

theorem maintain_upkeep (s : State) (upkeep : Upkeep) : (s.maintain upkeep).upkeep =
    some ⟨s.config.upkeep.roundAfter s.now,
      if s.tidied.isSweepDue upkeep.swept then s.now else upkeep.swept⟩ := by
  rw [maintain_eq]
  split
  · obtain ⟨files, hfiles⟩ := exists_swept_eq s.tidied
    rw [hfiles]
    rfl
  · rfl

namespace OnTime

variable (h : OnTime rules first ticks s)

include h

theorem timely (hupkeep : s.upkeep = some upkeep) (hdue : upkeep.due ≤ s.now) :
    Timely rules first ticks ⟨s.now, s.hasPressure, s.tidied.isSweepDue upkeep.swept⟩ := by
  obtain ⟨due, hnext, hnow, hbeat⟩ := h.next
  obtain rfl := Option.some_inj.mp (hupkeep.symm.trans hnext)
  refine ⟨fun hrange => ?_, ?_⟩
  · rw [← hbeat hrange]
    exact Nat.le_antisymm hnow hdue
  · have htidied : s.tidied.isSweepDue (lastSweep first ticks) =
        (s.hasPressure || decide (rules.retention.interval.toMillis ≤
          s.now - lastSweep first ticks)) := by
      rw [← h.config]
      rfl
    simp [htidied]

theorem maintain (hupkeep : s.upkeep = some upkeep) (hdue : upkeep.due ≤ s.now) :
    OnTime rules first
      (ticks ++ [⟨s.now, s.hasPressure, s.tidied.isSweepDue upkeep.swept⟩])
      (s.maintain upkeep) := by
  have hround := h.timely hupkeep hdue
  obtain ⟨due, hnext, -, -⟩ := h.next
  obtain rfl := Option.some_inj.mp (hupkeep.symm.trans hnext)
  refine ⟨(s.aside_maintain _).config.trans h.config, s.config.upkeep.roundAfter s.now, ?_, ?_, ?_⟩
  · rw [maintain_upkeep, lastSweep_concat]
  · rw [(s.aside_maintain _).now]
    exact Span.le_roundAfter _ _
  · rw [List.length_append, List.length_singleton, h.config]
    intro hrange
    have hnow : s.now = rules.beat first ticks.length :=
      hround.time_eq (hrange.mono (Config.beat_mono (Nat.le_succ _)))
    rw [Config.beat_succ] at hrange ⊢
    rw [hnow, Span.roundAfter_of_inRange hrange]

theorem meet (hstop : occurrence ≠ .move .stop) (hregular : Regular rules first ticks) :
    OnTime rules first (ticks ++ (s.tick? occurrence).toList) (s.meet occurrence) ∧
      Regular rules first (ticks ++ (s.tick? occurrence).toList) := by
  obtain ⟨due, hupkeep, hnow, hbeat⟩ := h.next
  rcases meet_cases hupkeep hstop with ⟨hdue, htick, hmeet⟩ | ⟨hnone, hkept, hlate, hconfig, -⟩
  · rw [htick, hmeet]
    exact ⟨h.maintain hupkeep hdue, hregular.snoc (h.timely hupkeep hdue)⟩
  · rw [hnone, Option.toList_none, List.append_nil]
    exact ⟨⟨hconfig.trans h.config, due, hkept, hlate hnow, hbeat⟩, hregular⟩

end OnTime

end State

end Engine

end Foreman
