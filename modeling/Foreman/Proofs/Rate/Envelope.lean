import Foreman.Proofs.Rate.Callers

namespace Foreman.Bucket

-- The tokens that a bucket for this limit earns from one time to another.
def earned (limit : Limit) (since now : Nat) : Rat :=
  limit.perMinute / 60 * (((now : Rat) - since) / 1000000000)

-- How many of the calls from the k-th on and before the n-th were allowed.
def admitted (answers : List (Decision Rat)) (k n : Nat) : Nat :=
  ((answers.take n).drop k).countP Decision.allowed

-- A call is allowed just when the calls from any earlier one on, with this one counted among
-- them, come to no more than a full bucket and what it earns in the meantime. So no stretch of
-- calls gets more than that.
structure Envelope (limit : Limit) (times : List Nat) (answers : List (Decision Rat)) : Prop where
  length : answers.length = times.length
  allowed : ∀ n (hn : n < times.length), answers[n].allowed = true ↔
    ∀ k (hk : k ≤ n), (admitted answers k n : Rat) + 1 ≤
      limit.burst + earned limit times[k] times[n]
  within : ∀ k n (hk : k ≤ n) (hn : n < times.length), (admitted answers k (n + 1) : Rat) ≤
    limit.burst + earned limit times[k] times[n]

-- What is in a bucket after these calls is the least that any stretch of them leaves in it.
structure Counts (limit : Limit) (times : List Nat) (answers : List (Decision Rat))
    (b : Bucket Rat) : Prop where
  length : answers.length = times.length
  least : ∀ x now, (∀ time ∈ times, time ≤ now) → (x ≤ (b.topUp now).tokens ↔
    x ≤ limit.burst ∧ ∀ k (hk : k < times.length),
      x + admitted answers k times.length ≤ limit.burst + earned limit times[k] now)

variable {limit : Limit} {times : List Nat} {answers : List (Decision Rat)} {b : Bucket Rat}
  {since time now k n : Nat} {decision : Decision Rat}

@[simp] theorem earned_self (limit : Limit) (now : Nat) : earned limit now now = 0 := by
  simp [earned]

theorem earned_trans (limit : Limit) (since time now : Nat) :
    earned limit since now = earned limit since time + earned limit time now := by
  simp only [earned]
  ring

theorem earned_nonneg (h : since ≤ now) : 0 ≤ earned limit since now := by
  have hgone : (0 : Rat) ≤ (now : Rat) - since := sub_nonneg.mpr (Nat.cast_le.mpr h)
  rw [earned]
  positivity

theorem Fits.income_eq (hb : b.Fits limit time) (h : since ≤ now) :
    b.income (now - since) = earned limit since now := by
  rw [income, hb.perSecond, earned, Nat.cast_sub h]
  ring

@[simp] theorem admitted_self (answers : List (Decision Rat)) (n : Nat) :
    admitted answers n n = 0 := by
  simp [admitted]

theorem admitted_append (hn : n ≤ answers.length) :
    admitted (answers ++ [decision]) k n = admitted answers k n := by
  rw [admitted, List.take_append_of_le_length hn, admitted]

-- One more call adds one, or nothing if it is turned away.
theorem admitted_next (hk : k ≤ answers.length) :
    admitted (answers ++ [decision]) k (answers.length + 1) =
      admitted answers k answers.length + if decision.allowed then 1 else 0 := by
  have hall : (answers ++ [decision]).take (answers.length + 1) = answers ++ [decision] :=
    List.take_of_length_le (by simp)
  rw [admitted, hall, List.drop_append_of_le_length hk, List.countP_append,
    List.countP_singleton, admitted, List.take_length]

theorem counts_ofLimit (limit : Limit) (made : Nat) : (ofLimit limit made).Counts limit [] [] where
  length := rfl
  least := by
    intro x now _
    rw [ofLimit_topUp]
    show x ≤ limit.burst ↔ _
    simp

-- What holds of all calls holds of those before the last one and of the last one.
theorem forall_getElem_append {p : Nat → Nat → Prop} :
    (∀ k (hk : k < (times ++ [now]).length), p k (times ++ [now])[k]) ↔
      p times.length now ∧ ∀ k (hk : k < times.length), p k times[k] := by
  constructor
  · intro hall
    refine ⟨by simpa using hall times.length (by simp), fun k hk => ?_⟩
    have hk' := hall k (by simp; omega)
    rwa [List.getElem_append_left hk] at hk'
  · rintro ⟨hlast, hall⟩ k hk
    rcases Nat.lt_or_eq_of_le (Nat.le_of_lt_succ (by simpa using hk)) with hlt | rfl
    · rw [List.getElem_append_left hlt]
      exact hall k hlt
    · simpa using hlast

theorem take_of_few (h : (b.topUp now).tokens < 1) :
    b.take now = (⟨false, (b.topUp now).untilToken⟩, b.topUp now) := if_pos h

theorem take_of_enough (h : 1 ≤ (b.topUp now).tokens) :
    b.take now = (⟨true, some 0⟩, { b.topUp now with tokens := (b.topUp now).tokens - 1 }) :=
  if_neg (not_lt.mpr h)

theorem take_allowed (b : Bucket Rat) (now : Nat) :
    (b.take now).1.allowed = true ↔ 1 ≤ (b.topUp now).tokens := by
  rcases lt_or_ge (b.topUp now).tokens 1 with hfew | henough
  · simp [take_of_few hfew, not_le.mpr hfew]
  · simp [take_of_enough henough, henough]

-- What a call leaves: a token less if it is allowed. To have turned a call away is not to be
-- noticed later.
theorem Fits.le_take_iff (hb : b.Fits limit time) (htime : time ≤ since) (hnow : since ≤ now)
    (x : Rat) : x ≤ ((b.take since).2.topUp now).tokens ↔
      if (b.take since).1.allowed then
        x ≤ limit.burst ∧ x + 1 - earned limit since now ≤ (b.topUp since).tokens
      else x ≤ (b.topUp now).tokens := by
  rcases lt_or_ge (b.topUp since).tokens 1 with hfew | henough
  · rw [take_of_few hfew, hb.topUp_topUp htime hnow]
    simp
  · have hnext := hb.take since
    rw [hnext.topUp_tokens, hnext.capacity]
    rw [take_of_enough henough] at hnext ⊢
    rw [topUp_filled, hnext.income_eq hnow, le_min_iff, and_comm, if_pos rfl]
    refine and_congr_right fun _ => ?_
    rw [sub_add_eq_add_sub, le_sub_iff_add_le, sub_le_iff_le_add]

-- The stretch that begins with the last call is the one that is new.
theorem Counts.take (h : b.Counts limit times answers) (hb : b.Fits limit time)
    (htime : time ≤ since) (htimes : ∀ time ∈ times, time ≤ since) :
    (b.take since).2.Counts limit (times ++ [since]) (answers ++ [(b.take since).1]) where
  length := by simp [h.length]
  least := by
    intro x now hnow
    have hsince : since ≤ now := hnow since (by simp)
    have hearned : 0 ≤ earned limit since now := earned_nonneg hsince
    have hcount : ∀ k ≤ times.length,
        (admitted (answers ++ [(b.take since).1]) k (times ++ [since]).length : Rat) =
          admitted answers k times.length + if (b.take since).1.allowed then 1 else 0 := by
      intro k hk
      rw [List.length_append, List.length_singleton, ← h.length, admitted_next (h.length ▸ hk)]
      push_cast
      rfl
    rw [hb.le_take_iff htime hsince, forall_getElem_append (p := fun k time =>
      x + admitted (answers ++ [(b.take since).1]) k (times ++ [since]).length ≤
        limit.burst + earned limit time now), hcount _ (Nat.le_refl _), admitted_self]
    have hstretches : (∀ k (hk : k < times.length),
        x + admitted (answers ++ [(b.take since).1]) k (times ++ [since]).length ≤
          limit.burst + earned limit times[k] now) ↔
        ∀ k (hk : k < times.length), x + (admitted answers k times.length +
          if (b.take since).1.allowed then 1 else 0) ≤ limit.burst + earned limit times[k] now :=
      forall_congr' fun k => forall_congr' fun hk => by rw [hcount k (Nat.le_of_lt hk)]
    rw [hstretches]
    cases (b.take since).1.allowed with
    | false =>
      simp only [Bool.false_eq_true, if_false, add_zero, Nat.cast_zero]
      rw [h.least x now fun time hmem => (htimes time hmem).trans hsince]
      refine and_congr_right fun hburst => ?_
      exact ⟨fun hall => ⟨by linarith, hall⟩, fun hall => hall.2⟩
    | true =>
      simp only [if_true, Nat.cast_zero, zero_add]
      rw [h.least _ since htimes, sub_le_iff_le_add]
      refine and_congr_right fun _ => and_congr_right fun _ => ?_
      refine forall_congr' fun k => forall_congr' fun hk => ?_
      rw [earned_trans limit times[k] since now]
      constructor <;> intro h <;> linarith

-- A call is allowed if no stretch that ends with it would be too much. A full bucket bounds the
-- stretch that is the call alone.
theorem Counts.allowed_iff (h : b.Counts limit times answers)
    (htimes : ∀ time ∈ times, time ≤ now) : (b.take now).1.allowed = true ↔
      ∀ k (hk : k < (times ++ [now]).length), (admitted answers k times.length : Rat) + 1 ≤
        limit.burst + earned limit (times ++ [now])[k] now := by
  rw [take_allowed, h.least 1 now htimes, forall_getElem_append (p := fun k time =>
    (admitted answers k times.length : Rat) + 1 ≤ limit.burst + earned limit time now)]
  refine and_congr (by simp) (forall_congr' fun k => forall_congr' fun hk => ?_)
  rw [add_comm]

theorem Counts.within (h : b.Counts limit times answers) (hb : b.Fits limit time)
    (htimes : ∀ time ∈ times, time ≤ now) (hk : k < times.length) :
    (admitted answers k times.length : Rat) ≤ limit.burst + earned limit times[k] now := by
  have hleast := ((h.least 0 now htimes).mp (hb.topUp now).nonneg).2 k hk
  rwa [zero_add] at hleast

-- One more call, at a time no earlier than the others.
theorem Envelope.take (h : Envelope limit times answers) (hcounts : b.Counts limit times answers)
    (hb : b.Fits limit time) (htime : time ≤ now) (htimes : ∀ time ∈ times, time ≤ now) :
    Envelope limit (times ++ [now]) (answers ++ [(b.take now).1]) where
  length := by simp [h.length]
  allowed := by
    intro n hn
    rcases Nat.lt_or_eq_of_le (Nat.le_of_lt_succ (by simpa using hn)) with hlt | rfl
    · have hn' : n < answers.length := h.length ▸ hlt
      rw [List.getElem_append_left hn', h.allowed n hlt]
      refine forall_congr' fun k => forall_congr' fun hk => ?_
      rw [admitted_append (Nat.le_of_lt hn'), List.getElem_append_left hlt,
        List.getElem_append_left (Nat.lt_of_le_of_lt hk hlt)]
    · have hbound : times.length < (answers ++ [(b.take now).1]).length := by simp [h.length]
      have hlast : (answers ++ [(b.take now).1])[times.length] = (b.take now).1 := by
        simp [← h.length]
      have hbefore : ∀ k, admitted (answers ++ [(b.take now).1]) k times.length =
          admitted answers k times.length :=
        fun k => admitted_append (Nat.le_of_eq h.length.symm)
      rw [hlast, hcounts.allowed_iff htimes]
      simp only [hbefore, List.length_append, List.length_singleton, Nat.lt_succ_iff,
        List.getElem_concat_length]
  within := by
    intro k n hk hn
    rcases Nat.lt_or_eq_of_le (Nat.le_of_lt_succ (by simpa using hn)) with hlt | rfl
    · rw [admitted_append (by rw [h.length]; exact hlt), List.getElem_append_left hlt,
        List.getElem_append_left (Nat.lt_of_le_of_lt hk hlt)]
      exact h.within k n hk hlt
    · have hnext := hcounts.take hb htime htimes
      have hall : ∀ time ∈ times ++ [now], time ≤ now := by
        simpa [or_imp, forall_and] using htimes
      have hbound := hnext.within (hb.take now) hall (k := k) (by simpa using Nat.lt_succ_of_le hk)
      simpa using hbound

theorem envelope_decisions {rest : List Nat} (h : Envelope limit times answers)
    (hcounts : b.Counts limit times answers) (hb : b.Fits limit time)
    (htime : ∀ now ∈ rest, time ≤ now) (hclock : (times ++ rest).Pairwise (· ≤ ·)) :
    Envelope limit (times ++ rest) (answers ++ b.decisions rest) := by
  induction rest generalizing times answers b time with
  | nil => simpa [decisions] using h
  | cons now rest ih =>
    have htimes : ∀ time ∈ times, time ≤ now := fun time hmem =>
      (List.pairwise_append.mp hclock).2.2 time hmem now List.mem_cons_self
    have hrest := (List.pairwise_cons.mp (List.pairwise_append.mp hclock).2.1).1
    have hnow := htime now List.mem_cons_self
    rw [List.append_cons] at hclock
    have hnext := ih (h.take hcounts hb hnow htimes) (hcounts.take hb hnow htimes) (hb.take now)
      hrest hclock
    simpa [decisions] using hnext

-- The calls to a bucket are allowed and turned away just as its envelope has it.
theorem envelope_of_decisions (limit : Limit) (made : Nat) (times : List Nat)
    (hmade : ∀ time ∈ times, made ≤ time) (hclock : times.Pairwise (· ≤ ·)) :
    Envelope limit times ((ofLimit limit made).decisions times) := by
  have hnone : Envelope limit [] [] :=
    ⟨rfl, fun n hn => absurd hn (Nat.not_lt_zero n), fun k n _ hn => absurd hn (Nat.not_lt_zero n)⟩
  exact envelope_decisions hnone (counts_ofLimit limit made) (fits_ofLimit limit made) hmade hclock

-- Two at once and a third in vain, then one again for each second gone.
theorem envelope_of_decisions_twice_a_second_apart :
    let times := [5, 5, 5, 1000000005, 1000000005]
    let answers := (ofLimit ⟨60, 2⟩ 3 : Bucket Rat).decisions times
    (∀ time ∈ times, 3 ≤ time) ∧ times.Pairwise (· ≤ ·) ∧ Envelope ⟨60, 2⟩ times answers ∧
      answers.map Decision.allowed = [true, true, false, true, false] := by
  intro times answers
  have hmade : ∀ time ∈ times, 3 ≤ time := by decide
  have hclock : times.Pairwise (· ≤ ·) := by decide
  exact ⟨hmade, hclock, envelope_of_decisions ⟨60, 2⟩ 3 times hmade hclock, by decide +kernel⟩

end Foreman.Bucket
