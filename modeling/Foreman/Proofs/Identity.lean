import Foreman.Job.Identity
import Mathlib.Tactic.Ring

namespace Foreman.JobId

theorem length_hexDigits (count n : Nat) : (hexDigits count n).length = count := by
  induction count generalizing n with
  | zero => rfl
  | succ count ih => simp [hexDigits, ih]

theorem readHex_append (acc : Nat) (cs ds : List Char) :
    readHex acc (cs ++ ds) = (readHex acc cs).bind fun n => readHex n ds := by
  induction cs generalizing acc with
  | nil => rfl
  | cons c cs ih =>
    rw [List.cons_append, readHex, readHex]
    cases Text.hexDigit? c with
    | none => rfl
    | some d => exact ih (acc * 16 + d)

-- Digits carry what fits into them, behind what was read before.
theorem readHex_hexDigits (acc count n : Nat) :
    readHex acc (hexDigits count n) = some (acc * 16 ^ count + n % 16 ^ count) := by
  induction count generalizing n with
  | zero => simp [hexDigits, readHex, Nat.mod_one]
  | succ count ih =>
    have hdigit : Text.hexDigit? (Text.digitChar (n % 16)) = some (n % 16) :=
      Text.hexDigit?_digitChar (Nat.mod_lt n (by decide))
    have hsplit : n % 16 ^ (count + 1) = n / 16 % 16 ^ count * 16 + n % 16 := by
      rw [Nat.pow_succ, Nat.mul_comm (16 ^ count) 16, Nat.mod_mul, Nat.mul_comm, Nat.add_comm]
    rw [hexDigits, readHex_append, ih, Option.bind_some, readHex, hdigit, hsplit]
    simp only [readHex, Option.some.injEq]
    ring

theorem exists_groups {digits : List Char} (h : digits.length = 32) : ∃ a b c d e : List Char,
    a.length = 8 ∧ b.length = 4 ∧ c.length = 4 ∧ d.length = 4 ∧ e.length = 12 ∧
      digits = a ++ (b ++ (c ++ (d ++ e))) := by
  refine ⟨digits.take 8, (digits.drop 8).take 4, (digits.drop 12).take 4, (digits.drop 16).take 4,
    digits.drop 20, by simp [h], by simp [h], by simp [h], by simp [h], by simp [h], ?_⟩
  have h₁₆ : digits.drop 16 = (digits.drop 16).take 4 ++ digits.drop 20 := by
    rw [← List.drop_drop (i := 4) (j := 16), List.take_append_drop]
  have h₁₂ : digits.drop 12 = (digits.drop 12).take 4 ++ digits.drop 16 := by
    rw [← List.drop_drop (i := 4) (j := 12), List.take_append_drop]
  have h₈ : digits.drop 8 = (digits.drop 8).take 4 ++ digits.drop 12 := by
    rw [← List.drop_drop (i := 4) (j := 8), List.take_append_drop]
  rw [← h₁₆, ← h₁₂, ← h₈, List.take_append_drop]

-- Between the hyphens stand all the digits.
theorem unhyphenate?_hyphenate {digits : List Char} (h : digits.length = 32) :
    unhyphenate? (hyphenate digits) = some digits := by
  obtain ⟨a, b, c, d, e, ha, hb, hc, hd, he, rfl⟩ := exists_groups h
  have hform : hyphenate (a ++ (b ++ (c ++ (d ++ e)))) =
      a ++ '-' :: (b ++ '-' :: (c ++ '-' :: (d ++ '-' :: e))) := by
    simp [hyphenate, List.drop_append, List.drop_of_length_le, ha, hb, hc, hd]
  rw [hform, unhyphenate?]
  simp only [List.take_left' ha, List.drop_append]
  simp [List.drop_append, List.drop_of_length_le, ha, hb, hc, hd, he, hform]

-- A name is read back from its text.
theorem ofText?_text (id : JobId) : ofText? id.text = some id := by
  have hcount : (hexDigits 32 id.code.toNat).length = 32 := length_hexDigits 32 id.code.toNat
  have hlength : (hyphenate (hexDigits 32 id.code.toNat)).length = 36 := by
    simp [hyphenate, hcount]
  have hvalue : readHex 0 (hexDigits 32 id.code.toNat) = some id.code.toNat := by
    have hsmall : id.code.toNat < 16 ^ 32 := id.code.isLt
    rw [readHex_hexDigits, Nat.zero_mul, Nat.zero_add, Nat.mod_eq_of_lt hsmall]
  have hread : ofDigits? (hexDigits 32 id.code.toNat) = some id := by
    simp [ofDigits?, hcount, hvalue]
  simp only [ofText?, text, String.toList_ofList, hlength]
  rw [if_neg (by decide), if_pos trivial, unhyphenate?_hyphenate hcount, Option.bind_some, hread]

end Foreman.JobId
