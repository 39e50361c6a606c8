import Foreman.Decimal.Binary
import Mathlib.Algebra.Order.Field.Power
import Mathlib.Algebra.Order.Ring.Abs
import Mathlib.Data.Nat.Log
import Mathlib.Data.Rat.Cast.Order
import Mathlib.Tactic.FieldSimp
import Mathlib.Tactic.Linarith
import Mathlib.Tactic.Positivity
import Mathlib.Tactic.Ring

namespace Foreman

namespace Text

theorem toDigits_bounds (n : Nat) : ∃ count, (toDigits 10 n).length = count + 1 ∧
    n < 10 ^ (count + 1) ∧ (n ≠ 0 → 10 ^ count ≤ n) := by
  fun_induction toDigits 10 n with
  | case1 n hn => exact ⟨0, rfl, by omega, by omega⟩
  | case2 n hn ih =>
    obtain ⟨count, hlength, hupper, hlower⟩ := ih
    refine ⟨count + 1, by simp [hlength], ?_, fun _ => ?_⟩
    · rw [pow_succ]
      omega
    · have hten := hlower (by omega)
      rw [pow_succ]
      omega

end Text

namespace Decimal

-- What the bits of a magnitude stand for. Infinity is in the place of the number that would come
-- next: whatever is nearer to that than to the largest number rounds to infinity.
def value (bits : Nat) : ℚ := (split bits).1 * 2 ^ (split bits).2

-- The magnitude next to a number. Of two that are as near it is the even one.
structure IsNearest (q : ℚ) (bits : Nat) : Prop where
  bounded : bits ≤ infinityBits
  near : ∀ other ≤ infinityBits, |q - value bits| ≤ |q - value other|
  even : ∀ other ≤ infinityBits, other ≠ bits → |q - value other| = |q - value bits| →
    bits % 2 = 0

-- The float next to a number.
def Approximates (x : Float) (q : ℚ) : Prop :=
  ∃ bits, IsNearest |q| bits ∧ x = ofMagnitude (decide (q < 0)) bits

variable {q : ℚ} {bits other k t num den n : Nat}

theorem twos_eq (n : Nat) : twos n = 2 ^ n := rfl

theorem twos_52 : twos 52 = 4503599627370496 := rfl

-- A magnitude is a significand in a binade; only in the lowest one has it less than 53 bits.
theorem split_binade (hform : k = 0 ∨ 2 ^ 52 ≤ t) (ht : t < 2 ^ 53) :
    split (k * 2 ^ 52 + t) = (t, (k : Int) - 1074) := by
  have hmod := Nat.mod_add_div (k * 4503599627370496 + t) 4503599627370496
  norm_num at hform ht ⊢
  simp only [split]
  split
  · rename_i hzero
    rw [twos_52] at hzero
    have hk : k = 0 := by omega
    simp [hk]
  · rename_i hne
    rw [twos_52] at hne ⊢
    have hbiased : (k * 4503599627370496 + t) / 4503599627370496 = k + 1 := by omega
    have hrest : (k * 4503599627370496 + t) % 4503599627370496 + 4503599627370496 = t := by omega
    rw [hbiased, hrest]
    push_cast
    rw [add_sub_right_comm]
    norm_num [sub_add]

theorem exists_binade (bits : Nat) :
    ∃ k t, bits = k * 2 ^ 52 + t ∧ (k = 0 ∨ 2 ^ 52 ≤ t) ∧ t < 2 ^ 53 := by
  by_cases hlow : bits < 2 ^ 52
  · exact ⟨0, bits, by omega, .inl rfl, by omega⟩
  · exact ⟨bits / 2 ^ 52 - 1, bits % 2 ^ 52 + 2 ^ 52, by omega, .inr (by omega), by omega⟩

-- From a binade to the next one the unit doubles.
theorem unit_succ (k : Nat) :
    (2 : ℚ) ^ ((k + 1 : Nat) - 1074 : Int) = 2 ^ ((k : Int) - 1074) * 2 := by
  rw [← zpow_add_one₀ two_ne_zero]
  push_cast
  ring_nf

-- A full significand may as well be one more than that.
theorem value_binade (hform : k = 0 ∨ 2 ^ 52 ≤ t) (ht : t ≤ 2 ^ 53) :
    value (k * 2 ^ 52 + t) = t * 2 ^ ((k : Int) - 1074) := by
  rcases Nat.lt_or_eq_of_le ht with hlt | rfl
  · rw [value, split_binade hform hlt]
  · have hnext : k * 2 ^ 52 + 2 ^ 53 = (k + 1) * 2 ^ 52 + 2 ^ 52 := by ring
    rw [hnext, value, split_binade (.inr le_rfl) (by norm_num)]
    rw [unit_succ]
    push_cast
    ring

theorem value_succ (bits : Nat) : value (bits + 1) = value bits + 2 ^ (split bits).2 := by
  obtain ⟨k, t, rfl, hform, ht⟩ := exists_binade bits
  rw [split_binade hform ht, value_binade hform ht.le, Nat.add_assoc,
    value_binade (by omega) (by omega)]
  push_cast
  ring

theorem value_strictMono : StrictMono value :=
  strictMono_nat_of_lt_succ fun bits => by
    rw [value_succ]
    exact lt_add_of_pos_right _ (by positivity)

-- The next magnitude is a unit further, or two where the next binade begins.
theorem le_value_binade_succ (hform : k = 0 ∨ 2 ^ 52 ≤ t) (ht : t ≤ 2 ^ 53) :
    (t + 1) * 2 ^ ((k : Int) - 1074) ≤ value (k * 2 ^ 52 + t + 1) := by
  rcases Nat.lt_or_eq_of_le ht with hlt | rfl
  · rw [value_succ, split_binade hform hlt, value_binade hform ht, add_one_mul]
  · have hnext : k * 2 ^ 52 + 2 ^ 53 + 1 = (k + 1) * 2 ^ 52 + (2 ^ 52 + 1) := by ring
    have hunit : (0 : ℚ) < 2 ^ ((k : Int) - 1074) := by positivity
    rw [hnext, value_binade (.inr (by omega)) (by norm_num), unit_succ]
    push_cast
    linarith

theorem value_zero : value 0 = 0 := by
  have h := value_binade (k := 0) (t := 0) (.inl rfl) (by omega)
  simpa using h

-- Within a binade those before are a unit away at least.
theorem value_le_binade_pred (hfirst : k = 0 ∨ 2 ^ 52 < t) (ht : t ≤ 2 ^ 53)
    (hbelow : other < k * 2 ^ 52 + t) : value other ≤ (t - 1) * 2 ^ ((k : Int) - 1074) := by
  obtain ⟨less, rfl⟩ : ∃ less, t = less + 1 := Nat.exists_eq_succ_of_ne_zero (by omega)
  have hprev : value (k * 2 ^ 52 + less) = less * 2 ^ ((k : Int) - 1074) :=
    value_binade (by omega) (by omega)
  have hle : value other ≤ value (k * 2 ^ 52 + less) := value_strictMono.monotone (by omega)
  rw [Nat.cast_succ, add_sub_cancel_right, ← hprev]
  exact hle

-- There is one magnitude at most next to a number: two as near as each other would be neighbours,
-- and one of them odd.
theorem IsNearest.unique (h : IsNearest q bits) (h' : IsNearest q other) : bits = other := by
  by_contra hne
  wlog hlt : bits < other generalizing bits other
  · exact this h' h (Ne.symm hne) (by omega)
  have hsame : |q - value other| = |q - value bits| :=
    le_antisymm (h'.near bits h.bounded) (h.near other h'.bounded)
  have hvalue := value_strictMono hlt
  have hmiddle : q - value bits = value other - q := by
    rcases abs_eq_abs.mp hsame with he | he <;> linarith
  have hpos : 0 < q - value bits := by linarith
  by_cases hnext : other = bits + 1
  · have heven := h.even other h'.bounded (Ne.symm hne) hsame
    have heven' := h'.even bits h.bounded hne hsame.symm
    omega
  · have hbetween : bits + 1 < other := by omega
    have hlow := value_strictMono (Nat.lt_succ_self bits)
    have hhigh := value_strictMono hbetween
    have hnear := h.near (bits + 1) (by have := h'.bounded; omega)
    rw [abs_of_pos hpos] at hnear
    have hless : |q - value (bits + 1)| < q - value bits := by
      rw [abs_lt]
      constructor <;> linarith
    linarith

-- As near as any other magnitude, however large.
def Closest (q : ℚ) (bits : Nat) : Prop :=
  ∀ other, other ≠ bits → |q - value bits| ≤ |q - value other| ∧
    (|q - value other| = |q - value bits| → bits % 2 = 0)

-- A number that was rounded to a significand is as near to that as to any other. Where the binade
-- begins the next one below is half as far away, and so the number must not be below it.
theorem closest_of_round (hform : k = 0 ∨ 2 ^ 52 ≤ t) (ht : t ≤ 2 ^ 53)
    (hround : |q / 2 ^ ((k : Int) - 1074) - t| ≤ 1 / 2)
    (heven : |q / 2 ^ ((k : Int) - 1074) - t| = 1 / 2 → t % 2 = 0)
    (hlow : k = 0 ∨ (2 : ℚ) ^ 52 ≤ q / 2 ^ ((k : Int) - 1074)) : Closest q (k * 2 ^ 52 + t) := by
  generalize hunit : (2 : ℚ) ^ ((k : Int) - 1074) = u at hround heven hlow
  have hu : 0 < u := hunit ▸ by positivity
  have hvalue : value (k * 2 ^ 52 + t) = t * u := hunit ▸ value_binade hform ht
  have hscaled : |q - t * u| = |q / u - t| * u := by
    rw [← abs_of_pos hu, ← abs_mul, abs_of_pos hu, sub_mul, div_mul_cancel₀ _ hu.ne']
  have hhalf : |q - t * u| ≤ u / 2 := by
    rw [hscaled]
    nlinarith
  have htie : |q - t * u| = u / 2 → (k * 2 ^ 52 + t) % 2 = 0 := by
    intro hsame
    have hexact : |q / u - t| = 1 / 2 := by
      rw [hscaled] at hsame
      exact mul_right_cancel₀ hu.ne' (by linarith)
    have := heven hexact
    omega
  have hbounds := abs_le.mp hhalf
  -- what is half a unit away or more is no nearer
  have hfar : ∀ {other : Nat}, u / 2 ≤ |q - value other| →
      |q - t * u| ≤ |q - value other| ∧
        (|q - value other| = |q - t * u| → (k * 2 ^ 52 + t) % 2 = 0) := by
    intro other haway
    exact ⟨hhalf.trans haway, fun hsame => htie (le_antisymm hhalf (hsame ▸ haway))⟩
  intro other hne
  rw [hvalue]
  rcases Nat.lt_or_gt_of_ne hne with hbelow | habove
  · by_cases hfirst : k = 0 ∨ 2 ^ 52 < t
    · have hle : value other ≤ (t - 1) * u := hunit ▸ value_le_binade_pred hfirst ht hbelow
      refine hfar ?_
      rw [le_abs]
      left
      linarith
    · obtain ⟨hk, rfl⟩ : k ≠ 0 ∧ t = 2 ^ 52 := by omega
      have hreach : ((2 ^ 52 : Nat) : ℚ) * u ≤ q := by
        rw [← le_div_iff₀ hu]
        push_cast
        exact hlow.resolve_left hk
      have hlt := value_strictMono hbelow
      rw [hvalue] at hlt
      have hless : |q - (2 ^ 52 : Nat) * u| < |q - value other| := by
        rw [abs_of_nonneg (by linarith), abs_of_pos (by linarith)]
        linarith
      exact ⟨hless.le, fun hsame => absurd hsame hless.ne'⟩
  · have hnext : (t + 1) * u ≤ value (k * 2 ^ 52 + t + 1) :=
      hunit ▸ le_value_binade_succ hform ht
    have hle : value (k * 2 ^ 52 + t + 1) ≤ value other := value_strictMono.monotone habove
    refine hfar ?_
    rw [le_abs]
    right
    linarith

theorem isNearest_infinityBits (h : value infinityBits ≤ q) : IsNearest q infinityBits := by
  have hless : ∀ other < infinityBits, |q - value infinityBits| < |q - value other| := by
    intro other hother
    have hlt := value_strictMono hother
    rw [abs_of_nonneg (by linarith), abs_of_pos (by linarith)]
    linarith
  refine ⟨le_rfl, fun other hother => ?_, fun other hother hne hsame => ?_⟩
  · rcases Nat.lt_or_eq_of_le hother with hlt | rfl
    · exact (hless other hlt).le
    · exact le_rfl
  · exact absurd hsame (hless other (Nat.lt_of_le_of_ne hother hne)).ne'

-- Whatever lies beyond the largest number is infinite.
theorem Closest.isNearest (h : Closest q bits) : IsNearest q (min bits infinityBits) := by
  rcases le_or_gt bits infinityBits with hle | hgt
  · rw [Nat.min_eq_left hle]
    refine ⟨hle, fun other _ => ?_, fun other _ hne hsame => (h other hne).2 hsame⟩
    by_cases he : other = bits
    · rw [he]
    · exact (h other he).1
  · rw [Nat.min_eq_right hgt.le]
    have hvalue := value_strictMono hgt
    refine isNearest_infinityBits (le_of_not_gt fun hnot => ?_)
    have hnear := (h infinityBits hgt.ne).1
    rw [abs_of_neg (by linarith), abs_of_nonpos (by linarith)] at hnear
    linarith

theorem roundEven_near (num : Nat) (hden : 0 < den) :
    |(num : ℚ) / den - roundEven num den| ≤ 1 / 2 ∧
      (|(num : ℚ) / den - roundEven num den| = 1 / 2 → roundEven num den % 2 = 0) := by
  have hpos : (0 : ℚ) < den := by exact_mod_cast hden
  have hquotient : (num : ℚ) / den = (num / den : Nat) + (num % den : Nat) / den := by
    rw [div_eq_iff hpos.ne', add_mul, div_mul_cancel₀ _ hpos.ne']
    exact_mod_cast (Nat.div_add_mod' num den).symm
  have hrest : ((num % den : Nat) : ℚ) < den := by exact_mod_cast Nat.mod_lt num hden
  have hnonneg : (0 : ℚ) ≤ (num % den : Nat) / den := by positivity
  rw [hquotient, roundEven]
  split
  · rename_i hsmall
    have hlt : ((num % den : Nat) : ℚ) / den < 1 / 2 := by
      rw [div_lt_div_iff₀ hpos two_pos]
      exact_mod_cast (by omega : num % den * 2 < 1 * den)
    rw [add_sub_cancel_left, abs_of_nonneg hnonneg]
    exact ⟨hlt.le, fun hsame => absurd hsame hlt.ne⟩
  · split
    · rename_i hlarge
      have hgt : 1 / 2 < ((num % den : Nat) : ℚ) / den := by
        rw [div_lt_div_iff₀ two_pos hpos]
        exact_mod_cast (by omega : 1 * den < num % den * 2)
      have hlt : ((num % den : Nat) : ℚ) / den < 1 := (div_lt_one hpos).mpr hrest
      push_cast
      rw [add_sub_add_left_eq_sub, abs_of_neg (by linarith)]
      exact ⟨by linarith, fun hsame => by linarith⟩
    · have hhalf : ((num % den : Nat) : ℚ) / den = 1 / 2 := by
        rw [div_eq_div_iff hpos.ne' two_ne_zero]
        exact_mod_cast (by omega : num % den * 2 = 1 * den)
      rw [hhalf]
      refine ⟨?_, fun _ => by omega⟩
      rcases Nat.mod_two_eq_zero_or_one (num / den) with hparity | hparity
      · rw [hparity, Nat.add_zero, add_sub_cancel_left]
        norm_num
      · rw [hparity]
        push_cast
        rw [add_sub_add_left_eq_sub]
        norm_num

-- Whether there are 53 bits before the point at this scale, asked without fractions.
theorem fits_iff (num : Nat) (hden : 0 < den) (guess : Int) :
    ((if 0 ≤ guess then decide (den * twos (guess.toNat + 52) ≤ num)
      else decide (den * twos 52 ≤ num * twos (-guess).toNat)) = true) ↔
      (2 : ℚ) ^ 52 ≤ num / den / 2 ^ guess := by
  have hdenpos : (0 : ℚ) < den := by exact_mod_cast hden
  rw [div_div, le_div_iff₀ (by positivity)]
  split
  · rename_i hguess
    obtain ⟨g, rfl⟩ := Int.eq_ofNat_of_zero_le hguess
    have hside : ((den * 2 ^ (g + 52) : Nat) : ℚ) = 2 ^ 52 * (den * 2 ^ g) := by
      push_cast
      ring
    rw [decide_eq_true_iff, Int.toNat_natCast, zpow_natCast, twos_eq, ← hside, Nat.cast_le]
  · rename_i hguess
    obtain ⟨g, hg⟩ := Int.eq_ofNat_of_zero_le (show 0 ≤ -guess by omega)
    obtain rfl : guess = -(g : Int) := by omega
    have hside : ((den * 2 ^ 52 : Nat) : ℚ) = 2 ^ 52 * den := by
      push_cast
      ring
    have hscaled : ((num * 2 ^ g : Nat) : ℚ) = num * 2 ^ g := by push_cast; rfl
    rw [decide_eq_true_iff, neg_neg, Int.toNat_natCast, zpow_neg, zpow_natCast, ← div_eq_mul_inv,
      ← mul_div_assoc, div_le_iff₀ (by positivity), twos_eq, twos_eq, ← hside, ← hscaled,
      Nat.cast_le]

-- The lengths of two numbers tell the length of their quotient, or one more.
theorem quotient_bounds (hnum : 0 < num) (hden : 0 < den) {guess : Int}
    (hguess : (num.log2 : Int) = guess + 52 + den.log2) :
    2 ^ 51 < (num : ℚ) / den / 2 ^ guess ∧ (num : ℚ) / den / 2 ^ guess < 2 ^ 53 := by
  have hdenpos : (0 : ℚ) < den := by exact_mod_cast hden
  have hnumlow : (2 : ℚ) ^ num.log2 ≤ num := by exact_mod_cast Nat.log2_self_le hnum.ne'
  have hnumhigh : (num : ℚ) < 2 ^ (num.log2 + 1) := by exact_mod_cast Nat.lt_log2_self
  have hdenlow : (2 : ℚ) ^ den.log2 ≤ den := by exact_mod_cast Nat.log2_self_le hden.ne'
  have hdenhigh : (den : ℚ) < 2 ^ (den.log2 + 1) := by exact_mod_cast Nat.lt_log2_self
  rw [← zpow_natCast, hguess] at hnumlow
  rw [← zpow_natCast, Nat.cast_succ, hguess] at hnumhigh
  rw [← zpow_natCast] at hdenlow
  rw [← zpow_natCast, Nat.cast_succ] at hdenhigh
  constructor
  · rw [div_div, lt_div_iff₀ (by positivity)]
    calc (2 : ℚ) ^ 51 * (den * 2 ^ guess) < 2 ^ 51 * (2 ^ ((den.log2 : Int) + 1) * 2 ^ guess) := by
          gcongr
      _ = 2 ^ (guess + 52 + den.log2) := by
        rw [← zpow_natCast (2 : ℚ) 51, ← zpow_add₀ two_ne_zero, ← zpow_add₀ two_ne_zero]
        congr 1
        push_cast
        ring
      _ ≤ num := hnumlow
  · rw [div_div, div_lt_iff₀ (by positivity)]
    calc (num : ℚ) < 2 ^ (guess + 52 + den.log2 + 1) := hnumhigh
      _ = 2 ^ 53 * (2 ^ (den.log2 : Int) * 2 ^ guess) := by
        rw [← zpow_natCast (2 : ℚ) 53, ← zpow_add₀ two_ne_zero, ← zpow_add₀ two_ne_zero]
        congr 1
        push_cast
        ring
      _ ≤ 2 ^ 53 * (den * 2 ^ guess) := by gcongr

-- The guess is right or one too large, and the scale is never below that of the lowest binade.
theorem scaleOf_eq (num : Nat) (hden : 0 < den) {guess : Int}
    (hguess : (num.log2 : Int) - den.log2 - 52 = guess) : scaleOf num den =
      max (if (2 : ℚ) ^ 52 ≤ num / den / 2 ^ guess then guess else guess - 1) (-1074) := by
  subst hguess
  simp only [← fits_iff num hden]
  rfl

-- The scale leaves 53 bits before the point, or fewer where there are no smaller scales.
theorem scaleOf_bounds (hnum : 0 < num) (hden : 0 < den) :
    -1074 ≤ scaleOf num den ∧ (num : ℚ) / den / 2 ^ scaleOf num den < 2 ^ 53 ∧
      (scaleOf num den = -1074 ∨ (2 : ℚ) ^ 52 ≤ num / den / 2 ^ scaleOf num den) := by
  generalize hguess : (num.log2 : Int) - den.log2 - 52 = guess
  have hlength : (num.log2 : Int) = guess + 52 + den.log2 := by omega
  obtain ⟨hlower, hupper⟩ := quotient_bounds hnum hden hlength
  have hexact : ∃ scale, (if (2 : ℚ) ^ 52 ≤ num / den / 2 ^ guess then guess else guess - 1) =
      scale ∧ 2 ^ 52 ≤ (num : ℚ) / den / 2 ^ scale ∧ (num : ℚ) / den / 2 ^ scale < 2 ^ 53 := by
    split
    · rename_i hfits
      exact ⟨guess, rfl, hfits, hupper⟩
    · rename_i hfits
      have hdouble : (num : ℚ) / den / 2 ^ (guess - 1) = num / den / 2 ^ guess * 2 := by
        rw [zpow_sub_one₀ two_ne_zero]
        field_simp
      refine ⟨guess - 1, rfl, ?_, ?_⟩ <;> rw [hdouble] <;> linarith
  obtain ⟨scale, hchosen, hfull, hfew⟩ := hexact
  rw [scaleOf_eq num hden hguess, hchosen]
  rcases le_total (-1074) scale with hscale | hscale
  · rw [max_eq_left hscale]
    exact ⟨hscale, hfew, .inr hfull⟩
  · rw [max_eq_right hscale]
    refine ⟨le_rfl, lt_of_le_of_lt ?_ hfew, .inl rfl⟩
    gcongr
    norm_num

-- The significand is the rounded quotient of two natural numbers.
theorem exists_significand (num : Nat) (hden : 0 < den) (scale : Int) :
    ∃ a d : Nat, 0 < d ∧ (a : ℚ) / d = num / den / 2 ^ scale ∧
      (if 0 ≤ scale then roundEven num (den * twos scale.toNat)
        else roundEven (num * twos (-scale).toNat) den) = roundEven a d := by
  split
  · rename_i hscale
    obtain ⟨g, rfl⟩ := Int.eq_ofNat_of_zero_le hscale
    refine ⟨num, den * 2 ^ g, by positivity, ?_, rfl⟩
    rw [zpow_natCast, div_div]
    push_cast
    rfl
  · rename_i hscale
    obtain ⟨g, hg⟩ := Int.eq_ofNat_of_zero_le (show 0 ≤ -scale by omega)
    obtain rfl : scale = -(g : Int) := by omega
    refine ⟨num * 2 ^ g, den, hden, ?_, by rw [neg_neg]; rfl⟩
    rw [zpow_neg, zpow_natCast, div_inv_eq_mul]
    push_cast
    ring

theorem isNearest_nearestBits (num : Nat) (hden : 0 < den) :
    IsNearest (num / den) (nearestBits num den) := by
  rcases Nat.eq_zero_or_pos num with rfl | hnum
  · refine ⟨by simp [nearestBits], fun other _ => ?_, fun _ _ _ _ => by simp [nearestBits]⟩
    simp only [nearestBits, if_true, value_zero, Nat.cast_zero, zero_div, sub_zero, abs_zero]
    exact abs_nonneg _
  · obtain ⟨hleast, hfew, hfull⟩ := scaleOf_bounds hnum hden
    generalize hscale : scaleOf num den = scale at hleast hfew hfull
    obtain ⟨k, hk⟩ := Int.eq_ofNat_of_zero_le (show 0 ≤ scale + 1074 by omega)
    obtain rfl : scale = (k : Int) - 1074 := by omega
    obtain ⟨a, d, hd, hquotient, hsignificand⟩ := exists_significand num hden ((k : Int) - 1074)
    obtain ⟨hround, heven⟩ := roundEven_near a hd
    rw [hquotient] at hround heven
    have hbounds := abs_le.mp hround
    have hform : k = 0 ∨ 2 ^ 52 ≤ roundEven a d := by
      refine hfull.imp (by omega) fun hfull => ?_
      have hreal : (2 ^ 52 : ℚ) < roundEven a d + 1 := by linarith
      have hnat : 2 ^ 52 < roundEven a d + 1 := by exact_mod_cast hreal
      omega
    have hsmall : roundEven a d ≤ 2 ^ 53 := by
      have hreal : (roundEven a d : ℚ) < 2 ^ 53 + 1 := by linarith
      have hnat : roundEven a d < 2 ^ 53 + 1 := by exact_mod_cast hreal
      omega
    have hbits : nearestBits num den = min (k * 2 ^ 52 + roundEven a d) infinityBits := by
      rw [nearestBits, if_neg hnum.ne']
      simp only [hscale, hsignificand]
      have htonat : ((k : Int) - 1074 + 1074).toNat = k := by omega
      rw [htonat]
      rfl
    rw [hbits]
    exact (closest_of_round hform hsmall hround heven (hfull.imp (by omega) id)).isNearest

theorem value_infinityBits : value infinityBits = 2 ^ 1024 := by
  have h := value_binade (k := 2046) (t := 2 ^ 52) (.inr le_rfl) (by norm_num)
  have hbits : 2046 * 2 ^ 52 + 2 ^ 52 = infinityBits := by norm_num [infinityBits]
  rw [hbits, Nat.cast_pow, ← zpow_natCast, Nat.cast_two, ← zpow_add₀ two_ne_zero] at h
  rw [h, ← zpow_natCast]
  norm_num

theorem isNearest_infinity (h : 2 ^ 1024 ≤ q) : IsNearest q infinityBits :=
  isNearest_infinityBits (value_infinityBits ▸ h)

theorem isNearest_zero (hnonneg : 0 ≤ q) (h : q ≤ 2 ^ (-1075 : Int)) : IsNearest q 0 := by
  have hhalf : q / 2 ^ (((0 : Nat) : Int) - 1074) ≤ 1 / 2 := by
    have hpower : (2 : ℚ) ^ (-1075 : Int) = 2 ^ (((0 : Nat) : Int) - 1074) * 2⁻¹ := by
      rw [← zpow_sub_one₀ two_ne_zero]
      norm_num
    rw [div_le_iff₀ (by positivity)]
    linarith
  have hpos : 0 ≤ q / 2 ^ (((0 : Nat) : Int) - 1074) := by positivity
  have hclosest : Closest q (0 * 2 ^ 52 + 0) := by
    refine closest_of_round (.inl rfl) (Nat.zero_le _) ?_ (fun _ => rfl) (.inl rfl)
    rw [show ((0 : Nat) : ℚ) = 0 from Nat.cast_zero, sub_zero, abs_of_nonneg hpos]
    exact hhalf
  simpa [infinityBits] using hclosest.isNearest

theorem twos_le_tens : (2 : ℚ) ^ 1200 ≤ 10 ^ 400 := by
  calc (2 : ℚ) ^ 1200 = (2 ^ 3) ^ 400 := by rw [← pow_mul]
    _ ≤ 10 ^ 400 := by gcongr; norm_num

-- A decimal number gets the bits of the magnitude next to it, however large or small it is.
theorem isNearest_tenBits (n : Nat) (exponent : Int) :
    IsNearest (n * 10 ^ exponent) (tenBits n exponent) := by
  obtain ⟨count, hlength, hupper, hlower⟩ := Text.toDigits_bounds n
  simp only [tenBits, hlength]
  split
  · rename_i hzero
    rw [hzero, Nat.cast_zero, zero_mul]
    exact isNearest_zero le_rfl (by positivity)
  · rename_i hne
    have hlow : (10 : ℚ) ^ (count : Int) ≤ n := by
      rw [zpow_natCast]
      exact_mod_cast hlower hne
    have hhigh : (n : ℚ) ≤ 10 ^ ((count : Int) + 1) := by
      rw [← Nat.cast_succ, zpow_natCast]
      exact_mod_cast hupper.le
    split
    · rename_i hlarge
      refine isNearest_infinity ?_
      calc (2 : ℚ) ^ 1024 ≤ 2 ^ 1200 := pow_le_pow_right₀ (by norm_num) (by norm_num)
        _ ≤ 10 ^ 400 := twos_le_tens
        _ = 10 ^ (400 : Int) := (zpow_natCast 10 400).symm
        _ ≤ 10 ^ ((count : Int) + exponent) :=
          zpow_le_zpow_right₀ (by norm_num) (by push_cast at hlarge; omega)
        _ = 10 ^ (count : Int) * 10 ^ exponent := zpow_add₀ (by norm_num) _ _
        _ ≤ n * 10 ^ exponent := by gcongr
    · split
      · rename_i hsmall
        refine isNearest_zero (by positivity) ?_
        calc (n : ℚ) * 10 ^ exponent ≤ 10 ^ ((count : Int) + 1) * 10 ^ exponent := by gcongr
          _ = 10 ^ ((count : Int) + 1 + exponent) := (zpow_add₀ (by norm_num) _ _).symm
          _ ≤ 10 ^ (-400 : Int) :=
            zpow_le_zpow_right₀ (by norm_num) (by push_cast at hsmall; omega)
          _ = ((10 : ℚ) ^ 400)⁻¹ := by rw [zpow_neg, ← zpow_natCast]; rfl
          _ ≤ ((2 : ℚ) ^ 1200)⁻¹ := by gcongr; exact twos_le_tens
          _ ≤ ((2 : ℚ) ^ 1075)⁻¹ := by gcongr <;> norm_num
          _ = 2 ^ (-1075 : Int) := by rw [zpow_neg, ← zpow_natCast]; rfl
      · split
        · rename_i hexponent
          obtain ⟨e, rfl⟩ := Int.eq_ofNat_of_zero_le hexponent
          have hnear := isNearest_nearestBits (n * 10 ^ e) Nat.one_pos
          rw [Nat.cast_one, div_one] at hnear
          rw [zpow_natCast, Int.toNat_natCast]
          exact_mod_cast hnear
        · rename_i hexponent
          obtain ⟨e, he⟩ := Int.eq_ofNat_of_zero_le (show 0 ≤ -exponent by omega)
          obtain rfl : exponent = -(e : Int) := by omega
          have hnear := isNearest_nearestBits n (show 0 < 10 ^ e by positivity)
          rw [zpow_neg, zpow_natCast, ← div_eq_mul_inv, neg_neg, Int.toNat_natCast]
          exact_mod_cast hnear

-- There is one float next to a number.
theorem IsNearest.approximates_iff {x : Float} (h : IsNearest |q| bits) :
    Approximates x q ↔ ofMagnitude (decide (q < 0)) bits = x := by
  constructor
  · rintro ⟨other, hother, rfl⟩
    rw [h.unique hother]
  · rintro rfl
    exact ⟨bits, h, rfl⟩

theorem approximates_decimal_iff {x : Float} (n : Nat) (exponent : Int) :
    Approximates x (n * 10 ^ exponent) ↔ nearest false n exponent = x := by
  have hnonneg : (0 : ℚ) ≤ n * 10 ^ exponent := by positivity
  have hnear := isNearest_tenBits n exponent
  rw [← abs_of_nonneg hnonneg] at hnear
  rw [hnear.approximates_iff, decide_eq_false hnonneg.not_gt]
  rfl

theorem approximates_int_iff {x : Float} (i : Int) :
    Approximates x i ↔ nearest (decide (i < 0)) i.natAbs 0 = x := by
  have hnear := isNearest_tenBits i.natAbs 0
  have habs : (i.natAbs : ℚ) * 10 ^ (0 : Int) = |(i : ℚ)| := by
    rw [zpow_zero, mul_one, Nat.cast_natAbs, Int.cast_abs]
  rw [habs] at hnear
  rw [hnear.approximates_iff, decide_eq_decide.mpr Int.cast_lt_zero]
  rfl

end Decimal

end Foreman
