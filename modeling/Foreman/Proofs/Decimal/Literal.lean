import Foreman.Decimal.Literal
import Foreman.Proofs.Decimal.Nearest

namespace Foreman.Decimal

-- Digits are taken one after the other as long as they make a number of 64 bits.
structure Takes (start : Nat) (digits : List Nat) (value : Nat) (left : List Nat) : Prop where
  taken : ∃ taken, digits = taken ++ left ∧
    value = taken.foldl (fun number digit => number * 10 + digit) start
  fits : value ≤ capacity
  full : ∀ digit rest, left = digit :: rest → capacity < value * 10 + digit

-- What comes of a division by a power of ten. The divisor is the float next to the power, and the
-- largest one is used over and over until the rest of the power is in range or nothing is left.
inductive DividesTo : Float → Nat → Float → Prop
  | once {f power : Float} {n : Nat} (hn : n ≤ 308) (hpower : Approximates power (10 ^ n)) :
      DividesTo f n (f / power)
  | again {f power result : Float} {n : Nat} (hn : 308 < n) (hne : (f == 0.0) = false)
      (hpower : Approximates power (10 ^ 308)) (hrest : DividesTo (f / power) (n - 308) result) :
      DividesTo f n result
  | vanished {f : Float} {n : Nat} (hn : 308 < n) (hzero : (f == 0.0) = true) : DividesTo f n f

-- What these digits come to when the point is moved. The digits are rounded first, and what they
-- are multiplied or divided by is rounded too. Nothing but zero can be moved as far as one likes.
inductive Shifted (significand : Nat) : Int → Float → Prop
  | down {f result : Float} {e : Int} (hf : Approximates f significand) (he : e < 0)
      (hdivides : DividesTo f e.natAbs result) : Shifted significand e result
  | up {f power : Float} {e : Int} (hf : Approximates f significand) (he : 0 ≤ e)
      (hrange : e ≤ 308) (hpower : Approximates power (10 ^ e))
      (hfinite : (f * power).isInf = false) : Shifted significand e (f * power)
  | zero {f : Float} {e : Int} (hf : Approximates f 0) (he : 308 < e) (hzero : significand = 0) :
      Shifted significand e f

-- An exponent moves the point once more. One that is out of all range is not looked at closely:
-- the number is zero, or there is none.
inductive Magnitude (significand : Nat) (shift : Int) : Option Int → Float → Prop
  | plain {x : Float} (hx : Shifted significand shift x) : Magnitude significand shift none x
  | scaled {x : Float} {e : Int} (he : e.natAbs ≤ maxExponent)
      (hx : Shifted significand (shift + e) x) : Magnitude significand shift (some e) x
  | beyond {e : Int} (he : maxExponent < e.natAbs) (hsmall : significand = 0 ∨ e ≤ 0) :
      Magnitude significand shift (some e) 0.0

-- The float that a numeral stands for. Those of its digits count that there is room for, and the
-- others of the whole part tell how large it is.
def Denotes (n : Numeral) (x : Float) : Prop :=
  ∃ whole skipped significand ignored magnitude,
    Takes 0 (Text.toDigits 10 n.whole) whole skipped ∧
    Takes whole n.fraction significand ignored ∧
    Magnitude significand (skipped.length - (n.fraction.length - ignored.length : Nat)) n.exponent
      magnitude ∧
    x = if n.negative then -magnitude else magnitude

variable {start significand value n : Nat} {digits left : List Nat} {shift : Int} {f x : Float}

theorem le_foldl_digits (start : Nat) (digits : List Nat) :
    start ≤ digits.foldl (fun number digit => number * 10 + digit) start := by
  induction digits generalizing start with
  | nil => exact le_rfl
  | cons digit rest ih => exact le_trans (by omega) (ih (start * 10 + digit))

theorem absorb_eq_iff (hstart : start ≤ capacity) :
    absorb start digits = (value, left) ↔ Takes start digits value left := by
  induction digits generalizing start with
  | nil =>
    rw [absorb, Prod.mk.injEq]
    constructor
    · rintro ⟨rfl, rfl⟩
      exact ⟨⟨[], rfl, rfl⟩, hstart, fun _ _ hleft => by cases hleft⟩
    · rintro ⟨⟨taken, hsplit, rfl⟩, -, -⟩
      obtain ⟨rfl, rfl⟩ := List.append_eq_nil_iff.mp hsplit.symm
      exact ⟨rfl, rfl⟩
  | cons digit rest ih =>
    rw [absorb]
    split
    · rename_i hfull
      rw [Prod.mk.injEq]
      constructor
      · rintro ⟨rfl, rfl⟩
        refine ⟨⟨[], rfl, rfl⟩, hstart, fun _ _ hleft => ?_⟩
        obtain ⟨rfl, -⟩ := List.cons.inj hleft
        exact hfull
      · rintro ⟨⟨taken, hsplit, rfl⟩, hfits, -⟩
        cases taken with
        | nil => exact ⟨rfl, hsplit⟩
        | cons first taken =>
          obtain ⟨rfl, -⟩ := List.cons.inj hsplit
          have hgrows := le_foldl_digits (start * 10 + digit) taken
          rw [List.foldl_cons] at hfits
          omega
    · rename_i hroom
      rw [ih (by omega)]
      constructor
      · rintro ⟨⟨taken, rfl, rfl⟩, hfits, hfull⟩
        exact ⟨⟨digit :: taken, rfl, rfl⟩, hfits, hfull⟩
      · rintro ⟨⟨taken, hsplit, rfl⟩, hfits, hfull⟩
        cases taken with
        | nil => exact absurd (hfull digit rest hsplit.symm) hroom
        | cons first taken =>
          obtain ⟨rfl, rfl⟩ := List.cons.inj hsplit
          exact ⟨⟨taken, rfl, rfl⟩, hfits, hfull⟩

theorem approximates_tenPower_iff (n : Nat) : Approximates x (10 ^ n) ↔ tenPower n = x := by
  rw [tenPower, ← approximates_decimal_iff, Nat.cast_one, one_mul, zpow_natCast]

theorem approximates_significand_iff (n : Nat) :
    Approximates x n ↔ nearest false n 0 = x := by
  rw [← approximates_decimal_iff, zpow_zero, mul_one]

theorem scaleDown_eq_iff : scaleDown f n = x ↔ DividesTo f n x := by
  fun_induction scaleDown f n with
  | case1 f n hn =>
    constructor
    · rintro rfl
      exact .once hn ((approximates_tenPower_iff n).mpr rfl)
    · intro h
      cases h with
      | once _ hpower => rw [(approximates_tenPower_iff n).mp hpower]
      | again hlarge _ _ _ => omega
      | vanished hlarge _ => omega
  | case2 f n hn hzero =>
    constructor
    · rintro rfl
      exact .vanished (by omega) hzero
    · intro h
      cases h with
      | once hsmall _ => omega
      | again _ hne _ _ => cases hzero.symm.trans hne
      | vanished _ _ => rfl
  | case3 f n hn hne ih =>
    rw [ih]
    constructor
    · intro h
      exact .again (by omega) (by simpa using hne) ((approximates_tenPower_iff 308).mpr rfl) h
    · intro h
      cases h with
      | once hsmall _ => omega
      | again _ _ hpower hrest =>
        rw [(approximates_tenPower_iff 308).mp hpower]
        exact hrest
      | vanished _ hzero => exact absurd hzero hne

theorem scaled_eq_some_iff : scaled significand shift = some x ↔ Shifted significand shift x := by
  have hdigits : ∀ f, Approximates f significand ↔ nearest false significand 0 = f :=
    fun f => approximates_significand_iff significand
  rw [scaled]
  split
  · rename_i hneg
    rw [Option.some.injEq, scaleDown_eq_iff]
    constructor
    · exact .down ((hdigits _).mpr rfl) hneg
    · intro h
      cases h with
      | down hf _ hdivides => rwa [(hdigits _).mp hf]
      | up _ he _ _ _ => omega
      | zero _ he _ => omega
  · rename_i hneg
    split
    · rename_i hrange
      obtain ⟨e, rfl⟩ := Int.eq_ofNat_of_zero_le (not_lt.mp hneg)
      have hpower : ∀ power, Approximates power (10 ^ (e : Int)) ↔ tenPower e = power := by
        intro power
        rw [zpow_natCast]
        exact approximates_tenPower_iff e
      rw [Int.toNat_natCast, Option.ite_none_left_eq_some, Option.some.injEq]
      constructor
      · rintro ⟨hfinite, rfl⟩
        exact .up ((hdigits _).mpr rfl) (by omega) hrange ((hpower _).mpr rfl)
          (by simpa using hfinite)
      · intro h
        cases h with
        | down _ he _ => omega
        | up hf _ _ hp hfinite =>
          rw [(hdigits _).mp hf, (hpower _).mp hp]
          exact ⟨by simpa using hfinite, rfl⟩
        | zero _ he _ => omega
    · rename_i hrange
      rw [Option.ite_none_right_eq_some, Option.some.injEq]
      constructor
      · rintro ⟨rfl, rfl⟩
        exact .zero (by simpa using (hdigits _).mpr rfl) (by omega) rfl
      · intro h
        cases h with
        | down _ he _ => omega
        | up _ _ he _ _ => omega
        | zero hf _ hzero =>
          subst hzero
          exact ⟨rfl, (hdigits _).mp (by simpa using hf)⟩

theorem withExponent_eq_some_iff {exponent : Option Int} :
    withExponent significand shift exponent = some x ↔ Magnitude significand shift exponent x := by
  cases exponent with
  | none =>
    rw [withExponent, scaled_eq_some_iff]
    exact ⟨.plain, fun h => by cases h with | plain hx => exact hx⟩
  | some e =>
    rw [withExponent]
    split
    · rename_i he
      rw [Option.ite_none_left_eq_some, Option.some.injEq]
      constructor
      · rintro ⟨hsmall, rfl⟩
        exact .beyond he (by omega)
      · intro h
        cases h with
        | scaled hle _ => omega
        | beyond _ hsmall => exact ⟨by omega, rfl⟩
    · rename_i he
      rw [scaled_eq_some_iff]
      constructor
      · exact .scaled (by omega)
      · intro h
        cases h with
        | scaled _ hx => exact hx
        | beyond hlarge _ => exact absurd hlarge he

-- The reader makes the float that the numeral stands for, if there is one.
theorem ofNumeral?_eq_some_iff {n : Numeral} : ofNumeral? n = some x ↔ Denotes n x := by
  have hwhole : ∀ value left, absorb 0 (Text.toDigits 10 n.whole) = (value, left) ↔
      Takes 0 (Text.toDigits 10 n.whole) value left := fun _ _ => absorb_eq_iff (Nat.zero_le _)
  rw [ofNumeral?]
  generalize absorb 0 (Text.toDigits 10 n.whole) = absorbed at hwhole ⊢
  obtain ⟨whole, skipped⟩ := absorbed
  have hfits : Takes 0 (Text.toDigits 10 n.whole) whole skipped :=
    (hwhole _ _).mp rfl
  have hrest : ∀ value left, absorb whole n.fraction = (value, left) ↔
      Takes whole n.fraction value left := fun _ _ => absorb_eq_iff hfits.fits
  dsimp only
  generalize absorb whole n.fraction = absorbed at hrest ⊢
  obtain ⟨significand, ignored⟩ := absorbed
  simp only [Option.map_eq_some_iff, withExponent_eq_some_iff]
  constructor
  · rintro ⟨magnitude, hmagnitude, rfl⟩
    exact ⟨whole, skipped, significand, ignored, magnitude, hfits, (hrest _ _).mp rfl, hmagnitude,
      rfl⟩
  · rintro ⟨whole', skipped', significand', ignored', magnitude, htakes, htakes', hmagnitude, rfl⟩
    obtain ⟨rfl, rfl⟩ := Prod.mk.inj ((hwhole _ _).mpr htakes)
    obtain ⟨rfl, rfl⟩ := Prod.mk.inj ((hrest _ _).mpr htakes')
    exact ⟨magnitude, hmagnitude, rfl⟩

end Foreman.Decimal
