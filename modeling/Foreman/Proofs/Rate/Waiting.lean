import Foreman.Proofs.Rate.Envelope

namespace Foreman.Bucket

-- A bucket for this limit, after any checks and after any upkeep that counted what was in it. The
-- readings of the clock need not be in order.
inductive Reached (limit : Limit) : Bucket Rat → Prop
  | made (now : Nat) : Reached limit (ofLimit limit now)
  | checked {b : Bucket Rat} (now : Nat) (h : Reached limit b) : Reached limit (b.take now).2
  | counted {b : Bucket Rat} (now : Nat) (h : Reached limit b) : Reached limit (b.topUp now)

variable {limit : Limit} {b : Bucket Rat} {time now : Nat}

@[simp] theorem take_filled (b : Bucket Rat) (now : Nat) : (b.take now).2.filled = now := by
  rcases lt_or_ge (b.topUp now).tokens 1 with hfew | henough
  · rw [take_of_few hfew, topUp_filled]
  · rw [take_of_enough henough, topUp_filled]

theorem Fits.taken (hb : b.Fits limit time) (now : Nat) :
    (b.take now).2.Fits limit (b.take now).2.filled := by
  rw [take_filled]
  exact hb.take now

theorem Reached.fits (h : Reached limit b) : b.Fits limit b.filled := by
  induction h with
  | made now => exact fits_ofLimit limit now
  | checked now _ ih => exact ih.taken now
  | counted now _ ih => exact ih.topUp now

theorem Fits.perSecond_pos (hb : b.Fits limit time) (hrate : 1 ≤ limit.perMinute) :
    0 < b.perSecond := by
  have hpos : (0 : Rat) < limit.perMinute := Nat.cast_pos.mpr hrate
  rw [hb.perSecond]
  positivity

theorem untilToken_of_pos (hrate : 0 < b.perSecond) :
    b.untilToken = some ((1 - b.tokens) / b.perSecond) := if_pos hrate

-- Where a whole token has room, only what comes in decides about the next call.
theorem Fits.allowed_after_iff (hb : b.Fits limit time) (hburst : 1 ≤ limit.burst) (delay : Nat) :
    (b.take (b.filled + delay)).1.allowed = true ↔ 1 ≤ b.tokens + b.income delay := by
  have hroom : 1 ≤ b.capacity := by
    rw [hb.capacity]
    exact Nat.one_le_cast.mpr hburst
  rw [take_allowed, hb.topUp_tokens, Nat.add_sub_cancel_left, le_min_iff, and_iff_left hroom]

-- That is the case from the time on that the bucket tells.
theorem one_le_income_iff (hrate : 0 < b.perSecond) (delay : Nat) :
    1 ≤ b.tokens + b.income delay ↔
      (1 - b.tokens) / b.perSecond ≤ (delay : Rat) / 1000000000 := by
  rw [div_le_iff₀ hrate, sub_le_iff_le_add', income]

-- The next token is never further away than the time that a whole one takes.
theorem Fits.untilToken_bounds (hb : b.Fits limit time) (hrate : 1 ≤ limit.perMinute)
    (hfew : b.tokens < 1) :
    0 < (1 - b.tokens) / b.perSecond ∧
      (1 - b.tokens) / b.perSecond ≤ 60 / (limit.perMinute : Rat) := by
  have hpos := hb.perSecond_pos hrate
  refine ⟨div_pos (sub_pos.mpr hfew) hpos, ?_⟩
  calc (1 - b.tokens) / b.perSecond
      ≤ 1 / b.perSecond := by
        gcongr
        exact sub_le_self 1 hb.nonneg
    _ = 60 / (limit.perMinute : Rat) := by rw [hb.perSecond, one_div_div]

-- Whoever is turned away is told how long to wait, and that is just when the next token is there:
-- a call after less than that is turned away, and one after that or later is allowed.
theorem wait_exact (hrate : 1 ≤ limit.perMinute) (hburst : 1 ≤ limit.burst)
    (hb : Reached limit b) (now : Nat) (hdenied : (b.take now).1.allowed = false) :
    ∃ wait, (b.take now).1.wait = some wait ∧ 0 < wait ∧ wait ≤ 60 / (limit.perMinute : Rat) ∧
      ∀ delay : Nat, ((b.take now).2.take (now + delay)).1.allowed = true ↔
        wait ≤ (delay : Rat) / 1000000000 := by
  have htop := hb.fits.topUp now
  have hfew : (b.topUp now).tokens < 1 := by
    rw [← not_le, ← take_allowed, hdenied]
    exact Bool.false_ne_true
  have hpos := htop.perSecond_pos hrate
  obtain ⟨hsome, hbound⟩ := htop.untilToken_bounds hrate hfew
  rw [take_of_few hfew]
  refine ⟨_, untilToken_of_pos hpos, hsome, hbound, fun delay => ?_⟩
  rw [← one_le_income_iff hpos]
  exact htop.allowed_after_iff hburst delay

-- With seven calls a minute and no more than one at a time, a second is not enough for the next
-- one, and what is missing is told.
theorem wait_exact_a_second_later :
    let b := ((ofLimit ⟨7, 1⟩ 3 : Bucket Rat).take 3).2
    1 ≤ 7 ∧ 1 ≤ 1 ∧ Reached ⟨7, 1⟩ b ∧ (b.take 1000000003).1 = ⟨false, some (53 / 7)⟩ ∧
      ∃ wait, (b.take 1000000003).1.wait = some wait ∧ 0 < wait ∧ wait ≤ 60 / ((7 : Nat) : Rat) ∧
        ∀ delay : Nat, ((b.take 1000000003).2.take (1000000003 + delay)).1.allowed = true ↔
          wait ≤ (delay : Rat) / 1000000000 := by
  intro b
  have hrate : 1 ≤ (⟨7, 1⟩ : Limit).perMinute := by decide
  have hburst : 1 ≤ (⟨7, 1⟩ : Limit).burst := by decide
  have hb : Reached ⟨7, 1⟩ b := .checked 3 (.made 3)
  have hanswer : (b.take 1000000003).1 = ⟨false, some (53 / 7)⟩ := by decide +kernel
  have hdenied : (b.take 1000000003).1.allowed = false := congrArg Decision.allowed hanswer
  exact ⟨hrate, hburst, hb, hanswer, wait_exact hrate hburst hb 1000000003 hdenied⟩

end Foreman.Bucket
