import Foreman.Proofs.Rate.Waiting

namespace Foreman.Bucket

-- How far a clock goes forward in all, from one reading to the next. What it goes back is not made
-- up for.
def advance (since : Nat) : List Nat → Nat
  | [] => 0
  | now :: times => now - since + advance now times

-- How far it goes forward from the first reading on.
def forward : List Nat → Nat
  | [] => 0
  | first :: times => advance first times

def granted (b : Bucket Rat) (times : List Nat) : Nat := (b.decisions times).countP Decision.allowed

def after (b : Bucket Rat) (times : List Nat) : Bucket Rat :=
  times.foldl (fun b now => (b.take now).2) b

-- The tokens that come in at these calls and find no room.
def spilled (b : Bucket Rat) : List Nat → Rat
  | [] => 0
  | now :: times =>
    b.tokens + b.income (now - b.filled) - (b.topUp now).tokens + (b.take now).2.spilled times

-- No more calls are allowed than a full bucket and so much time are worth.
def Within (limit : Limit) (made span : Nat) (times : List Nat) : Prop :=
  ((ofLimit limit made).granted times : Rat) ≤ limit.burst + (ofLimit limit made).income span

variable {limit : Limit} {b : Bucket Rat} {time now n span : Nat} {first second times : List Nat}

@[simp] theorem take_capacity (b : Bucket Rat) (now : Nat) :
    (b.take now).2.capacity = b.capacity := by
  rcases lt_or_ge (b.topUp now).tokens 1 with hfew | henough
  · rw [take_of_few hfew, topUp_capacity]
  · rw [take_of_enough henough, topUp_capacity]

theorem income_take (b : Bucket Rat) (now nanos : Nat) :
    (b.take now).2.income nanos = b.income nanos := by
  rcases lt_or_ge (b.topUp now).tokens 1 with hfew | henough
  · rw [take_of_few hfew, income_topUp]
  · rw [take_of_enough henough]
    rfl

theorem income_mono (hb : b.Fits limit time) {m n : Nat} (h : m ≤ n) : b.income m ≤ b.income n := by
  obtain ⟨more, rfl⟩ := Nat.exists_eq_add_of_le h
  rw [income_add]
  exact le_add_of_nonneg_right (hb.income_nonneg more)

-- A call that is allowed takes a token, and one that is turned away takes none.
theorem tokens_take (b : Bucket Rat) (now : Nat) :
    (b.take now).2.tokens + (if (b.take now).1.allowed then 1 else 0) = (b.topUp now).tokens := by
  rcases lt_or_ge (b.topUp now).tokens 1 with hfew | henough
  · simp [take_of_few hfew]
  · simp [take_of_enough henough]

@[simp] theorem granted_nil (b : Bucket Rat) : b.granted [] = 0 := rfl

theorem granted_cons (b : Bucket Rat) (now : Nat) (times : List Nat) :
    b.granted (now :: times) =
      (b.take now).2.granted times + if (b.take now).1.allowed then 1 else 0 :=
  List.countP_cons

-- Every token that was there or has come in was taken by a call, has found no room, or is left.
theorem conserved (b : Bucket Rat) (times : List Nat) :
    b.granted times + b.spilled times + (b.after times).tokens =
      b.tokens + b.income (advance b.filled times) := by
  induction times generalizing b with
  | nil => simp [spilled, after, advance, income]
  | cons now times ih =>
    have hrest := ih (b.take now).2
    have htaken := tokens_take b now
    rw [take_filled, income_take] at hrest
    rw [granted_cons, spilled, advance, income_add, ← htaken]
    push_cast
    show _ + _ + _ + ((b.take now).2.after times).tokens = _
    linarith

theorem Fits.after (hb : b.Fits limit time) (times : List Nat) :
    (b.after times).Fits limit (b.after times).filled := by
  induction times generalizing b time with
  | nil => exact { hb with filled := le_refl _ }
  | cons now times ih => exact ih (hb.taken now)

theorem Fits.spilled_nonneg (hb : b.Fits limit time) (times : List Nat) :
    0 ≤ b.spilled times := by
  induction times generalizing b time with
  | nil => exact le_refl _
  | cons now times ih =>
    have hroom : (b.topUp now).tokens ≤ b.tokens + b.income (now - b.filled) := by
      rw [hb.topUp_tokens]
      exact min_le_left _ _
    exact add_nonneg (sub_nonneg.mpr hroom) (ih (hb.taken now))

theorem after_capacity (b : Bucket Rat) (times : List Nat) :
    (b.after times).capacity = b.capacity := by
  induction times generalizing b with
  | nil => rfl
  | cons now times ih => exact (ih _).trans (take_capacity b now)

theorem income_after (b : Bucket Rat) (times : List Nat) (nanos : Nat) :
    (b.after times).income nanos = b.income nanos := by
  induction times generalizing b with
  | nil => rfl
  | cons now times ih => exact (ih _).trans (income_take b now nanos)

theorem after_append (b : Bucket Rat) (first second : List Nat) :
    b.after (first ++ second) = (b.after first).after second :=
  List.foldl_append

theorem spilled_append (b : Bucket Rat) (first second : List Nat) :
    b.spilled (first ++ second) = b.spilled first + (b.after first).spilled second := by
  induction first generalizing b with
  | nil => simp [spilled, after]
  | cons now first ih =>
    rw [List.cons_append, spilled, spilled, ih (b.take now).2, add_assoc]
    rfl

-- A new bucket is full, and what would come in before the first call finds no room.
theorem spilled_ofLimit (limit : Limit) (made first : Nat) (times : List Nat) :
    (ofLimit limit made).spilled (first :: times) =
      (ofLimit limit made).income (first - made) +
        ((ofLimit limit made).take first).2.spilled times := by
  rw [spilled, ofLimit_topUp]
  show (limit.burst : Rat) + (ofLimit limit made).income (first - made) - limit.burst + _ = _
  rw [add_sub_cancel_left]

-- Calls that share a reading of the clock.

theorem advance_replicate (now n : Nat) (times : List Nat) :
    advance now (List.replicate n now ++ times) = advance now times := by
  induction n with
  | zero => rfl
  | succ n ih =>
    rw [List.replicate_succ, List.cons_append, advance, ih, Nat.sub_self, Nat.zero_add]

theorem advance_flatMap (since n : Nat) (times : List Nat) :
    advance since (times.flatMap (List.replicate (n + 1))) = advance since times := by
  induction times generalizing since with
  | nil => rfl
  | cons now times ih =>
    rw [List.flatMap_cons, List.replicate_succ, List.cons_append, advance, advance_replicate, ih,
      advance]

theorem forward_flatMap (n : Nat) (times : List Nat) :
    forward (times.flatMap (List.replicate (n + 1))) = forward times := by
  cases times with
  | nil => rfl
  | cons first times =>
    rw [List.flatMap_cons, List.replicate_succ, List.cons_append, forward, advance_replicate,
      advance_flatMap, forward]

-- The bound in general: what counts is how far the clock goes forward.
theorem granted_le_forward (limit : Limit) (made : Nat) (times : List Nat) :
    Within limit made (forward times) times := by
  rw [Within]
  cases times with
  | nil => simp [forward, income]
  | cons first times =>
    have hfits := fits_ofLimit limit made
    have hall := conserved (ofLimit limit made) (first :: times)
    have hleft := (hfits.after (first :: times)).nonneg
    have hspilled := (hfits.taken first).spilled_nonneg times
    rw [spilled_ofLimit] at hall
    change _ = (limit.burst : Rat) + (ofLimit limit made).income (first - made + advance first times)
      at hall
    rw [income_add] at hall
    rw [forward]
    linarith

-- With as many calls at one time as there are tokens, less than one is left.
theorem Fits.drained (hb : b.Fits limit time) (hn : b.tokens < n + 1) :
    b.spilled (List.replicate n b.filled) = 0 ∧
      (b.after (List.replicate n b.filled)).tokens < 1 := by
  induction n generalizing b time with
  | zero =>
    rw [Nat.cast_zero, zero_add] at hn
    exact ⟨rfl, hn⟩
  | succ n ih =>
    have hsame : (b.topUp b.filled).tokens = b.tokens := by
      rw [hb.topUp_tokens, Nat.sub_self]
      simpa [income] using hb.room
    have htokens : (b.take b.filled).2.tokens < n + 1 := by
      rcases lt_or_ge (b.topUp b.filled).tokens 1 with hfew | henough
      · rw [take_of_few hfew]
        exact lt_of_lt_of_le hfew (le_add_of_nonneg_left (Nat.cast_nonneg n))
      · rw [take_of_enough henough]
        show (b.topUp b.filled).tokens - 1 < n + 1
        rw [hsame]
        push_cast at hn
        linarith
    have hrest := ih (hb.taken b.filled) htokens
    rw [take_filled] at hrest
    refine ⟨?_, hrest.2⟩
    rw [List.replicate_succ, spilled, hsame, hrest.1]
    simp [income]

theorem after_replicate_filled (b : Bucket Rat) (n : Nat) :
    (b.after (List.replicate n b.filled)).filled = b.filled := by
  induction n generalizing b with
  | zero => rfl
  | succ n ih =>
    have hrest := ih (b.take b.filled).2
    rwa [take_filled] at hrest

-- The same for a first call at some time and as many more as a full bucket allows.
theorem Fits.drained_after (hb : b.Fits limit time) (now : Nat) (hn : b.capacity ≤ n) :
    (b.take now).2.spilled (List.replicate n now) = 0 ∧
      (b.after (List.replicate (n + 1) now)).tokens < 1 ∧
      (b.after (List.replicate (n + 1) now)).filled = now := by
  have hroom : (b.take now).2.tokens < n + 1 := by
    have hle := (hb.taken now).room
    rw [take_capacity] at hle
    exact lt_of_le_of_lt (hle.trans hn) (lt_add_one _)
  have hdrained := (hb.taken now).drained hroom
  have hfilled := after_replicate_filled (b.take now).2 n
  rw [take_filled] at hdrained hfilled
  exact ⟨hdrained.1, hdrained.2, hfilled⟩

-- Nothing is spilled as long as what comes in on the way fits into a bucket that is all but empty.
theorem Fits.drained_flatMap (hb : b.Fits limit time) (times : List Nat) (hfew : b.tokens < 1)
    (hroom : 1 + b.income (advance b.filled times) ≤ b.capacity) (hn : b.capacity ≤ n) :
    b.spilled (times.flatMap (List.replicate (n + 1))) = 0 ∧
      (b.after (times.flatMap (List.replicate (n + 1)))).tokens < 1 := by
  induction times generalizing b time with
  | nil => exact ⟨rfl, hfew⟩
  | cons now times ih =>
    rw [advance, income_add] at hroom
    have hin := hb.income_nonneg (now - b.filled)
    have hlater := hb.income_nonneg (advance now times)
    obtain ⟨hspilled, hless, hfilled⟩ := hb.drained_after now hn
    have hfits : b.tokens + b.income (now - b.filled) ≤ b.capacity := by linarith
    have hfirst : b.spilled (List.replicate (n + 1) now) = 0 := by
      rw [List.replicate_succ, spilled, hspilled, hb.topUp_tokens, min_eq_left hfits]
      ring
    have hroom' : 1 + (b.after (List.replicate (n + 1) now)).income
        (advance (b.after (List.replicate (n + 1) now)).filled times) ≤
          (b.after (List.replicate (n + 1) now)).capacity := by
      rw [hfilled, income_after, after_capacity]
      linarith
    have hrest := ih (hb.after (List.replicate (n + 1) now)) hless hroom' (by rwa [after_capacity])
    rw [List.flatMap_cons, spilled_append, after_append, hfirst, zero_add]
    exact hrest

-- A bucket with room for all that comes in gives all of it away but for less than a token, if there
-- are calls enough at each time.
theorem lt_granted_flatMap (made first : Nat) (times : List Nat) (hn : limit.burst ≤ n)
    (hroom : 1 + (ofLimit limit made).income (advance first times) ≤ (limit.burst : Rat)) :
    limit.burst + (ofLimit limit made).income (advance first times) <
      ((ofLimit limit made).granted ((first :: times).flatMap (List.replicate (n + 1))) : Rat) + 1 := by
  have hfits := fits_ofLimit limit made
  obtain ⟨hspilled, hless, hfilled⟩ := hfits.drained_after first (Nat.cast_le.mpr hn)
  obtain ⟨hnone, hleft⟩ :=
    (hfits.after (List.replicate (n + 1) first)).drained_flatMap (n := n) times hless
      (by rwa [hfilled, income_after, after_capacity])
      (by rw [after_capacity]; exact Nat.cast_le.mpr hn)
  have hall := conserved (ofLimit limit made) ((first :: times).flatMap (List.replicate (n + 1)))
  rw [advance_flatMap, advance, income_add, List.flatMap_cons, spilled_append, hnone,
    List.replicate_succ, spilled_ofLimit, hspilled, ← List.replicate_succ, after_append] at hall
  rw [List.flatMap_cons]
  change _ = (limit.burst : Rat) + ((ofLimit limit made).income (first - made) + _) at hall
  linarith

-- A limit under which a bucket gets a token each nanosecond.
theorem income_nanosecond (burst made nanos : Nat) :
    (ofLimit ⟨60 * 1000000000, burst⟩ made : Bucket Rat).income nanos = nanos := by
  show (nanos : Rat) / 1000000000 * (((60 * 1000000000 : Nat) : Rat) / 60) = nanos
  push_cast
  ring

theorem exists_not_within (made : Nat) (h : span < forward times) :
    ∃ limit n, ¬ Within limit made span (times.flatMap (List.replicate n)) := by
  cases times with
  | nil => exact absurd h (Nat.not_lt_zero span)
  | cons first times =>
    have hlonger : (span : Rat) + 1 ≤ advance first times := by exact_mod_cast h
    let limit : Limit := ⟨60 * 1000000000, advance first times + 1⟩
    have hroom : limit.burst ≤ advance first times + 1 := le_refl _
    have hincome : 1 + (ofLimit limit made).income (advance first times) ≤ (limit.burst : Rat) := by
      rw [income_nanosecond]
      show (1 : Rat) + _ ≤ (advance first times + 1 : Nat)
      push_cast
      rw [add_comm]
    have hmany := lt_granted_flatMap made first times hroom hincome
    refine ⟨limit, advance first times + 1 + 1, fun hwithin => ?_⟩
    rw [Within, income_nanosecond] at hwithin
    rw [income_nanosecond] at hmany
    linarith

theorem Within.mono {longer : Nat} {made : Nat} (h : Within limit made span times)
    (hspan : span ≤ longer) : Within limit made longer times :=
  le_trans h (add_le_add_right (income_mono (fits_ofLimit limit made) hspan) _)

theorem forward_flatMap_le (n : Nat) (times : List Nat) :
    forward (times.flatMap (List.replicate n)) ≤ forward times := by
  cases n with
  | zero =>
    have hnone : times.flatMap (List.replicate 0) = [] := by simp
    rw [hnone]
    exact Nat.zero_le _
  | succ n => exact (forward_flatMap n times).le

-- Too many calls are allowed just when the tokens that the clock brings by going over the same time
-- again are more than those that find no room and those that are left. And calls at these times are
-- never too many, whatever the limit is and however many there are at each of them, just when the
-- clock does not go forward for longer than that in all.
theorem within_iff (made span : Nat) (times : List Nat) :
    (∀ limit, Within limit made span times ↔
      (ofLimit limit made).income (advance made times) ≤
        (ofLimit limit made).income span + (ofLimit limit made).spilled times +
          ((ofLimit limit made).after times).tokens) ∧
    ((∀ limit n, Within limit made span (times.flatMap (List.replicate n))) ↔
      forward times ≤ span) := by
  refine ⟨fun limit => ?_, fun hall => ?_, fun hforward limit n => ?_⟩
  · have hall := conserved (ofLimit limit made) times
    change _ = (limit.burst : Rat) + (ofLimit limit made).income (advance made times) at hall
    rw [Within]
    constructor <;> intro h <;> linarith
  · by_contra hlonger
    obtain ⟨limit, n, hnot⟩ := exists_not_within made (not_le.mp hlonger)
    exact hnot (hall limit n)
  · exact (granted_le_forward limit made _).mono ((forward_flatMap_le n times).trans hforward)

-- The clock goes forward for a second, back, and forward for the same second again. Three calls are
-- allowed in this second, where two would be right.
theorem granted_twice_over :
    let times := [0, 1000000000, 0, 1000000000]
    (∀ time ∈ times, 0 ≤ time ∧ time ≤ 0 + 1000000000) ∧
      ((ofLimit ⟨60, 1⟩ 0).decisions times).map Decision.allowed = [true, true, false, true] ∧
      ¬ Within ⟨60, 1⟩ 0 1000000000 times := by
  intro times
  refine ⟨by decide, ?_, ?_⟩
  · decide +kernel
  · unfold Within
    decide +kernel

end Foreman.Bucket
