import Mathlib.Algebra.Order.Field.Rat
import Mathlib.Tactic.Linarith
import Mathlib.Tactic.Positivity
import Mathlib.Tactic.Ring
import Foreman.Rate.Bucket

namespace Foreman.Bucket

-- The tokens that come in so many nanoseconds.
def income (b : Bucket Rat) (nanos : Nat) : Rat := nanos / 1000000000 * b.perSecond

-- A bucket made for this limit, as it may be at a time no earlier than when it was last
-- counted.
structure Fits (limit : Limit) (time : Nat) (b : Bucket Rat) : Prop where
  capacity : b.capacity = limit.burst
  perSecond : b.perSecond = limit.perMinute / 60
  nonneg : 0 ≤ b.tokens
  room : b.tokens ≤ b.capacity
  filled : b.filled ≤ time

variable {limit : Limit} {time now later : Nat} {b : Bucket Rat}

theorem seconds_ofNanos (nanos : Nat) :
    (seconds (Span.ofNanos nanos) : Rat) = nanos / 1000000000 := by
  have hsplit : (nanos : Rat) = (1000000000 * (nanos / 1000000000) + nanos % 1000000000 : Nat) := by
    rw [Nat.div_add_mod]
  show ((nanos / 1000000000 : Nat) : Rat) + ((nanos % 1000000000 : Nat) : Rat) / 1000000000 = _
  rw [hsplit]
  push_cast
  ring

theorem topUp_tokens (b : Bucket Rat) (now : Nat) :
    (b.topUp now).tokens =
      Quantity.clamp 0 b.capacity (b.tokens + b.income (now - b.filled)) := by
  show Quantity.clamp 0 b.capacity
    (b.tokens + seconds (Span.ofNanos (now - b.filled)) * b.perSecond) = _
  rw [seconds_ofNanos, income]

@[simp] theorem topUp_capacity (b : Bucket Rat) (now : Nat) :
    (b.topUp now).capacity = b.capacity := rfl

@[simp] theorem topUp_perSecond (b : Bucket Rat) (now : Nat) :
    (b.topUp now).perSecond = b.perSecond := rfl

@[simp] theorem topUp_filled (b : Bucket Rat) (now : Nat) : (b.topUp now).filled = now := rfl

theorem income_topUp (b : Bucket Rat) (now nanos : Nat) :
    (b.topUp now).income nanos = b.income nanos := rfl

theorem income_add (b : Bucket Rat) (m n : Nat) : b.income (m + n) = b.income m + b.income n := by
  simp only [income]
  push_cast
  ring

theorem Fits.income_nonneg (hb : b.Fits limit time) (nanos : Nat) : 0 ≤ b.income nanos := by
  rw [income, hb.perSecond]
  positivity

theorem Fits.mono (hb : b.Fits limit time) (htime : time ≤ later) : b.Fits limit later :=
  ⟨hb.capacity, hb.perSecond, hb.nonneg, hb.room, hb.filled.trans htime⟩

theorem fits_ofLimit (limit : Limit) (now : Nat) : (ofLimit limit now).Fits limit now where
  capacity := rfl
  perSecond := rfl
  nonneg := Nat.cast_nonneg _
  room := le_refl _
  filled := le_refl _

-- Nothing is lost below, so that only the capacity cuts what has come in.
theorem Fits.topUp_tokens (hb : b.Fits limit time) (now : Nat) :
    (b.topUp now).tokens = min (b.tokens + b.income (now - b.filled)) b.capacity := by
  have hincome := hb.income_nonneg (now - b.filled)
  have htokens := hb.nonneg
  rw [Bucket.topUp_tokens, Quantity.clamp, if_neg (not_lt.mpr (by linarith))]
  split
  · exact (min_eq_right (le_of_lt ‹_›)).symm
  · exact (min_eq_left (not_lt.mp ‹_›)).symm

theorem Fits.topUp (hb : b.Fits limit time) (now : Nat) : (b.topUp now).Fits limit now where
  capacity := hb.capacity
  perSecond := hb.perSecond
  nonneg := by
    have hincome := hb.income_nonneg (now - b.filled)
    rw [hb.topUp_tokens]
    exact le_min (by linarith [hb.nonneg]) (hb.nonneg.trans hb.room)
  room := by
    rw [hb.topUp_tokens]
    exact min_le_right _ _
  filled := le_refl _

-- To count the tokens on the way changes nothing: what did not fit then would not fit later.
theorem Fits.topUp_topUp (hb : b.Fits limit time) (hnow : time ≤ now) (hlater : now ≤ later) :
    (b.topUp now).topUp later = b.topUp later := by
  have htokens : ((b.topUp now).topUp later).tokens = (b.topUp later).tokens := by
    have hsplit : later - b.filled = (now - b.filled) + (later - now) := by
      have := hb.filled
      omega
    rw [(hb.topUp now).topUp_tokens, hb.topUp_tokens, hb.topUp_tokens, topUp_capacity,
      topUp_filled, income_topUp, hsplit, income_add, ← add_assoc]
    have hincome := hb.income_nonneg (later - now)
    rcases le_total (b.tokens + b.income (now - b.filled)) b.capacity with hroom | hfull
    · rw [min_eq_left hroom]
    · rw [min_eq_right hfull, min_eq_right (by linarith), min_eq_right (by linarith)]
  calc (b.topUp now).topUp later
      = { b.topUp later with tokens := ((b.topUp now).topUp later).tokens } := rfl
    _ = b.topUp later := by rw [htokens]

-- A bucket that has filled up is one that has just been made.
theorem Fits.eq_ofLimit (hb : b.Fits limit time) (hfull : b.isFull = true) :
    b = ofLimit limit b.filled := by
  have htokens : b.tokens = limit.burst := by
    simp only [isFull, Bool.not_eq_true', decide_eq_false_iff_not, not_lt] at hfull
    rw [← hb.capacity]
    exact le_antisymm hb.room hfull
  calc b = ⟨b.capacity, b.perSecond, b.tokens, b.filled⟩ := rfl
    _ = ⟨limit.burst, limit.perMinute / 60, limit.burst, b.filled⟩ := by
      rw [hb.capacity, hb.perSecond, htokens]

-- A new bucket is full and stays so.
theorem ofLimit_topUp (limit : Limit) (now later : Nat) :
    (ofLimit limit now : Bucket Rat).topUp later = ofLimit limit later := by
  have hb := (fits_ofLimit limit now).topUp later
  refine hb.eq_ofLimit ?_
  have htokens : ((ofLimit limit now : Bucket Rat).topUp later).tokens = limit.burst := by
    rw [(fits_ofLimit limit now).topUp_tokens]
    exact min_eq_right (le_add_of_nonneg_right ((fits_ofLimit limit now).income_nonneg _))
  simp only [isFull, htokens, hb.capacity, lt_self_iff_false, decide_false, Bool.not_false]

-- What a check makes of a bucket hangs on what is in it by then.
theorem take_congr {a b : Bucket Rat} (h : a.topUp now = b.topUp now) :
    a.take now = b.take now := by
  unfold take
  rw [h]

theorem Fits.take (hb : b.Fits limit time) (now : Nat) : (b.take now).2.Fits limit now := by
  have htop := hb.topUp now
  simp only [Bucket.take]
  split
  · exact htop
  · have henough : 1 ≤ (b.topUp now).tokens := not_lt.mp ‹_›
    refine ⟨htop.capacity, htop.perSecond, ?_, ?_, htop.filled⟩
    · exact sub_nonneg.mpr henough
    · exact (sub_le_self _ zero_le_one).trans htop.room

end Foreman.Bucket
