import Foreman.Json.Printer
import Foreman.Json.Reader
import Mathlib.Tactic.SplitIfs

namespace Foreman

namespace Text

theorem toDigits_ne_nil (base n : Nat) : toDigits base n ≠ [] := by
  fun_induction toDigits base n <;> simp

-- A number has no zeros in front of its digits.
theorem pos_of_mem_head?_toDigits {n : Nat} (hn : 0 < n) : ∀ d ∈ (toDigits 10 n).head?, 0 < d := by
  fun_induction toDigits 10 n with
  | case1 n _ => simpa using hn
  | case2 n hlarge ih =>
    rw [List.head?_append, Option.or_of_isSome (by simpa using toDigits_ne_nil 10 (n / 10))]
    exact ih (by omega)

-- Digits end where no digit follows.
def Breaks (rest : List Char) : Prop := ∀ c ∈ rest.head?, digit? c = none

theorem breaks_cons {c : Char} {rest : List Char} (h : digit? c = none) : Breaks (c :: rest) := by
  rintro _ ⟨⟩
  exact h

theorem leadingDigits_append {ds : List Nat} {rest : List Char} (hds : ∀ d ∈ ds, d < 10)
    (hrest : Breaks rest) : leadingDigits (ds.map digitChar ++ rest) = (ds, rest) := by
  induction ds with
  | nil =>
    cases rest with
    | nil => rfl
    | cons c cs =>
      have hc : digit? c = none := hrest c rfl
      simp [leadingDigits, hc]
  | cons d ds ih =>
    have hd : digit? (digitChar d) = some d := digit?_digitChar (hds d List.mem_cons_self)
    have htail := ih fun other hother => hds other (List.mem_cons_of_mem d hother)
    simp only [leadingDigits, Prod.mk.injEq] at htail
    simp [leadingDigits, hd, htail]

theorem leadingDigits_decimal (n : Nat) {rest : List Char} (hrest : Breaks rest) :
    leadingDigits (decimal n ++ rest) = (toDigits 10 n, rest) :=
  leadingDigits_append (fun _ => lt_of_mem_toDigits (by decide)) hrest

theorem exists_head_decimal (n : Nat) : ∃ c cs, decimal n = c :: cs ∧ (digit? c).isSome := by
  obtain ⟨d, ds, hdigits⟩ := List.exists_cons_of_ne_nil (toDigits_ne_nil 10 n)
  have hd : d < 10 := lt_of_mem_toDigits (by decide) (show d ∈ toDigits 10 n by simp [hdigits])
  exact ⟨digitChar d, ds.map digitChar, by simp [decimal, hdigits], by simp [digit?_digitChar hd]⟩

-- The first digit of a number is zero for zero alone.
theorem head?_decimal_ne_zero {n : Nat} (hn : 0 < n) : (decimal n).head? ≠ some '0' := by
  obtain ⟨d, ds, hdigits⟩ := List.exists_cons_of_ne_nil (toDigits_ne_nil 10 n)
  have hpos : 0 < d := pos_of_mem_head?_toDigits hn d (by simp [hdigits])
  have hd : d < 10 := lt_of_mem_toDigits (by decide) (show d ∈ toDigits 10 n by simp [hdigits])
  have hread : digit? (digitChar d) = some d := digit?_digitChar hd
  intro he
  rw [decimal, hdigits, List.map_cons, List.head?_cons, Option.some.injEq] at he
  rw [he] at hread
  have hzero : 0 = d := Option.some.inj hread
  omega

end Text

open Text

namespace Json.Reader

variable {rest : List Char}

theorem whole_append (n : Nat) (hrest : Breaks rest) :
    whole (decimal n ++ rest) = some (n, rest) := by
  have hleading := leadingDigits_decimal n hrest
  cases Nat.eq_zero_or_pos n with
  | inl hn =>
    subst hn
    have hhead : rest.head?.bind digit? = none := by
      cases rest with
      | nil => rfl
      | cons c cs => exact hrest c rfl
    have hzero : decimal 0 = ['0'] := by decide +kernel
    simp [whole, hzero, hhead]
  | inr hn =>
    obtain ⟨d, ds, hdigits⟩ := List.exists_cons_of_ne_nil (toDigits_ne_nil 10 n)
    have hvalue : ofDigits 10 (d :: ds) = n := by rw [← hdigits, ofDigits_toDigits]
    unfold whole
    split
    · rename_i cs he
      have hhead : (decimal n).head? = some '0' := by
        obtain ⟨c, _, hdecimal, -⟩ := exists_head_decimal n
        rw [hdecimal, List.cons_append] at he
        rw [hdecimal, List.head?_cons, (List.cons.inj he).1]
      exact absurd hhead (head?_decimal_ne_zero hn)
    · rw [hleading, hdigits]
      simp [hvalue]

theorem fraction_append {ds : List Nat} (hds : ∀ d ∈ ds, d < 10) (hrest : Breaks rest)
    (hpoint : rest.head? ≠ some '.') :
    fraction (Numeral.fractionText ds ++ rest) = some (ds, rest) := by
  cases ds with
  | nil =>
    rw [Numeral.fractionText, List.nil_append]
    unfold fraction
    split
    · exact absurd rfl hpoint
    · rfl
  | cons d ds =>
    have hleading := leadingDigits_append hds hrest
    simp only [Numeral.fractionText, List.cons_append, fraction]
    rw [hleading]

theorem exponentDigits_append (negative : Bool) (n : Nat) (hrest : Breaks rest) :
    exponentDigits negative (decimal n ++ rest) =
      some (some (if negative then - (n : Int) else n), rest) := by
  obtain ⟨d, ds, hdigits⟩ := List.exists_cons_of_ne_nil (toDigits_ne_nil 10 n)
  have hvalue : ofDigits 10 (d :: ds) = n := by rw [← hdigits, ofDigits_toDigits]
  have hleading := leadingDigits_decimal n hrest
  rw [hdigits] at hleading
  simp [exponentDigits, hleading, hvalue]

theorem exponent_append (e : Option Int) (hrest : Breaks rest)
    (hmark : rest.head? ≠ some 'e' ∧ rest.head? ≠ some 'E') :
    exponent (Numeral.exponentText e ++ rest) = some (e, rest) := by
  cases e with
  | none =>
    rw [Numeral.exponentText, List.nil_append]
    unfold exponent
    split
    · exact absurd rfl hmark.1
    · exact absurd rfl hmark.2
    · rfl
  | some e =>
    by_cases he : e < 0
    · have hback : - (e.natAbs : Int) = e := by omega
      simp only [Numeral.exponentText, if_pos he, List.cons_append, exponent, exponentSigned,
        exponentDigits_append true _ hrest, if_true, hback]
    · have hback : (e.natAbs : Int) = e := by omega
      simp only [Numeral.exponentText, if_neg he, List.cons_append, exponent, exponentSigned,
        exponentDigits_append false _ hrest, Bool.false_eq_true, if_false, hback]

-- What can come after a value in a text: nothing, more of what it stands in, or the end of that.
def Closes (rest : List Char) : Prop := ∀ c ∈ rest.head?, c = ',' ∨ c = ']' ∨ c = '\x7d'

theorem closes_cons {c : Char} (h : c = ',' ∨ c = ']' ∨ c = '\x7d') : Closes (c :: rest) := by
  rintro _ ⟨⟩
  exact h

theorem Closes.breaks (h : Closes rest) : Breaks rest := by
  intro c hc
  obtain rfl | rfl | rfl := h c hc <;> decide

theorem Closes.head?_ne (h : Closes rest) {c : Char} (hc : ¬ (c = ',' ∨ c = ']' ∨ c = '\x7d')) :
    rest.head? ≠ some c :=
  fun he => hc (h c he)

theorem sign_append (negative : Bool) {cs : List Char} (hcs : cs.head? ≠ some '-') :
    sign ((if negative then ['-'] else []) ++ cs) = (negative, cs) := by
  cases negative with
  | true => rfl
  | false =>
    simp only [Bool.false_eq_true, if_false, List.nil_append]
    unfold sign
    split
    · exact absurd rfl hcs
    · rfl

theorem numeral_append {n : Numeral} (hn : ∀ d ∈ n.fraction, d < 10) (hrest : Closes rest) :
    numeral (n.print ++ rest) = some (n, rest) := by
  have hexponent := exponent_append n.exponent hrest.breaks
    ⟨hrest.head?_ne (by decide), hrest.head?_ne (by decide)⟩
  have hmark : Breaks (Numeral.exponentText n.exponent ++ rest) ∧
      (Numeral.exponentText n.exponent ++ rest).head? ≠ some '.' := by
    cases n.exponent with
    | none => exact ⟨hrest.breaks, hrest.head?_ne (by decide)⟩
    | some e => exact ⟨breaks_cons (by decide), by simp [Numeral.exponentText]⟩
  have hfraction := fraction_append hn hmark.1 hmark.2
  have hpoint : Breaks (Numeral.fractionText n.fraction ++
      (Numeral.exponentText n.exponent ++ rest)) := by
    cases n.fraction with
    | nil => exact hmark.1
    | cons d ds => exact breaks_cons (by decide)
  have hwhole := whole_append n.whole hpoint
  have hdigit : (decimal n.whole ++ (Numeral.fractionText n.fraction ++
      (Numeral.exponentText n.exponent ++ rest))).head? ≠ some '-' := by
    obtain ⟨c, cs, hdecimal, hc⟩ := exists_head_decimal n.whole
    rw [hdecimal, List.cons_append]
    rintro ⟨⟩
    exact absurd hc (by decide)
  have hsign := sign_append n.negative hdigit
  simp only [Numeral.print, List.append_assoc, numeral, hsign, hwhole, hfraction, hexponent,
    Option.bind_eq_bind, Option.bind_some, Option.pure_def]

-- A piece of text that is read as one character, whatever comes after it.
def Spells (text : List Char) (c : Char) : Prop :=
  ∃ piece : Piece,
    (∀ cs, pieces (text ++ cs) = (pieces cs).map fun (ps, rest) => (piece :: ps, rest)) ∧
    ∀ ps, assemble (piece :: ps) = (assemble ps).map (c :: ·)

theorem spells_named {name c : Char} (h : named? name = some c) : Spells ['\\', name] c := by
  have hname : name ≠ 'u' := by
    rintro rfl
    cases h
  refine ⟨.char c, fun cs => ?_, fun _ => rfl⟩
  simp only [List.cons_append, List.nil_append]
  rw [pieces]
  · cases hcs : pieces cs <;> simp [h]
  · rintro _ _ _ _ _ rfl
    exact absurd rfl hname

theorem spells_control {c : Char} (h : c.toNat < 32) :
    Spells ['\\', 'u', '0', '0', digitChar (c.toNat / 16), digitChar (c.toNat % 16)] c := by
  have hhigh : hexDigit? (digitChar (c.toNat / 16)) = some (c.toNat / 16) :=
    hexDigit?_digitChar (by omega)
  have hlow : hexDigit? (digitChar (c.toNat % 16)) = some (c.toNat % 16) :=
    hexDigit?_digitChar (by omega)
  have hzero : hexDigit? '0' = some 0 := by decide
  have hunit : unit? '0' '0' (digitChar (c.toNat / 16)) (digitChar (c.toNat % 16)) =
      some c.toNat := by
    have hvalue : c.toNat / 16 * 16 + c.toNat % 16 = c.toNat := by omega
    simp [unit?, hhigh, hlow, hzero, ofDigits, hvalue]
  refine ⟨.unit c.toNat, fun cs => ?_, fun ps => ?_⟩
  · simp only [List.cons_append, List.nil_append]
    rw [pieces]
    cases hcs : pieces cs <;> simp [hunit]
  · have hlone : ¬ (0xdc00 ≤ c.toNat ∧ c.toNat < 0xe000) := by omega
    have hpair : ¬ (0xd800 ≤ c.toNat ∧ c.toNat < 0xdc00) := by omega
    rw [assemble.eq_def]
    simp only [if_neg hlone, if_neg hpair, Char.ofNat_toNat]

theorem spells_self {c : Char} (hquote : c ≠ '\x22') (hescape : c ≠ '\\') (h : ¬ c.toNat < 32) :
    Spells [c] c := by
  refine ⟨.char c, fun cs => ?_, fun _ => rfl⟩
  simp only [List.cons_append, List.nil_append]
  rw [pieces]
  · have hplain : ¬ (c.toNat < 32 ∨ c = '\\') := by simp [h, hescape]
    rw [if_neg hplain]
    cases hcs : pieces cs <;> rfl
  · exact hquote
  · rintro _ _ _ _ _ he
    exact absurd he hescape
  · rintro _ _ he
    exact absurd he hescape

theorem spells_escape (c : Char) : Spells (escape c) c := by
  unfold escape
  split_ifs with h₁ h₂ h₃ h₄ h₅ h₆ h₇ hcontrol
  · exact spells_named (by rw [h₁]; rfl)
  · exact spells_named (by rw [h₂]; rfl)
  · exact spells_named (by rw [h₃]; rfl)
  · exact spells_named (by rw [h₄]; rfl)
  · exact spells_named (by rw [h₅]; rfl)
  · exact spells_named (by rw [h₆]; rfl)
  · exact spells_named (by rw [h₇]; rfl)
  · exact spells_control hcontrol
  · exact spells_self h₁ h₂ hcontrol

theorem string_append (s : String) :
    string (s.toList.flatMap escape ++ '\x22' :: rest) = some (some s, rest) := by
  have hpieces : ∀ cs : List Char, ∃ ps, pieces (cs.flatMap escape ++ '\x22' :: rest) =
      some (ps, rest) ∧ assemble ps = some cs := by
    intro cs
    induction cs with
    | nil => exact ⟨[], by simp [pieces], rfl⟩
    | cons c cs ih =>
      obtain ⟨ps, hps, hchars⟩ := ih
      obtain ⟨piece, hpiece, hone⟩ := spells_escape c
      refine ⟨piece :: ps, ?_, by simp [hone, hchars]⟩
      rw [List.flatMap_cons, List.append_assoc, hpiece, hps, Option.map_some]
  obtain ⟨ps, hps, hchars⟩ := hpieces s.toList
  simp [string, hps, hchars]

theorem word_append (w : List Char) (j : Json) : word w j (w ++ rest) = some (j, rest) := by
  simp [word]

theorem skipBlank_cons {c : Char} (h : isBlank c = false) : skipBlank (c :: rest) = c :: rest := by
  simp [skipBlank, h]

-- What the readers do, one step at a time.

variable {fuel : Nat} {cs more : List Char} {j : Json} {js : List Json} {key : Option String}
  {fs : List (Option String × Json)}

theorem value_of_numeral {n : Numeral} (h : numeral cs = some (n, rest)) :
    value (fuel + 1) cs = some (number n, rest) := by
  unfold value
  split
  case h_7 => rw [h, Option.map_some]
  all_goals cases h

theorem value_of_items (h : Reader.items fuel (skipBlank more) = some (js, rest))
    (hmore : (skipBlank more).head? ≠ some ']') :
    value (fuel + 1) ('[' :: more) = some (array js, rest) := by
  simp only [value]
  split
  · rename_i he
    exact absurd (by rw [he]; rfl) hmore
  · rw [h, Option.map_some]

theorem value_of_fields (h : Reader.fields fuel (skipBlank more) = some (fs, rest))
    (hmore : (skipBlank more).head? ≠ some '\x7d') :
    value (fuel + 1) ('\x7b' :: more) = some (object fs, rest) := by
  simp only [value]
  split
  · rename_i he
    exact absurd (by rw [he]; rfl) hmore
  · rw [h, Option.map_some]

theorem items_last (h : value fuel cs = some (j, ']' :: rest)) :
    Reader.items (fuel + 1) cs = some ([j], rest) := by
  simp only [Reader.items, h]
  rw [skipBlank_cons (by decide)]
  rfl

theorem items_more (h : value fuel cs = some (j, ',' :: more))
    (hmore : Reader.items fuel (skipBlank more) = some (js, rest)) :
    Reader.items (fuel + 1) cs = some (j :: js, rest) := by
  simp only [Reader.items, h]
  rw [skipBlank_cons (by decide)]
  simp only [hmore, Option.map_some]

theorem fields_last (hkey : string cs = some (key, ':' :: more))
    (h : value fuel (skipBlank more) = some (j, '\x7d' :: rest)) :
    Reader.fields (fuel + 1) ('\x22' :: cs) = some ([(key, j)], rest) := by
  simp only [Reader.fields, hkey]
  rw [skipBlank_cons (by decide)]
  simp only [h]
  rw [skipBlank_cons (by decide)]
  rfl

theorem fields_more {others : List Char} (hkey : string cs = some (key, ':' :: more))
    (h : value fuel (skipBlank more) = some (j, ',' :: others))
    (hothers : Reader.fields fuel (skipBlank others) = some (fs, rest)) :
    Reader.fields (fuel + 1) ('\x22' :: cs) = some ((key, j) :: fs, rest) := by
  simp only [Reader.fields, hkey]
  rw [skipBlank_cons (by decide)]
  simp only [h]
  rw [skipBlank_cons (by decide)]
  simp only [hothers, Option.map_some]

theorem isBlank_of_digit {c : Char} (h : (digit? c).isSome) : isBlank c = false := by
  rw [Bool.eq_false_iff]
  intro hblank
  simp only [isBlank, Bool.or_eq_true, beq_iff_eq] at hblank
  obtain ((rfl | rfl) | rfl) | rfl := hblank <;> cases h

-- The text of a value starts with its first character, and never with a blank.
theorem exists_head_print (j : Json) :
    ∃ c cs, j.print = c :: cs ∧ isBlank c = false ∧ c ≠ ']' := by
  cases j with
  | null => exact ⟨'n', _, rfl, by decide, by decide⟩
  | bool b => cases b <;> exact ⟨_, _, rfl, by decide, by decide⟩
  | number n =>
    obtain ⟨c, cs, hdecimal, hdigit⟩ := exists_head_decimal n.whole
    cases hsign : n.negative with
    | true => exact ⟨'-', _, by simp only [print, Numeral.print, hsign]; rfl, by decide, by decide⟩
    | false =>
      refine ⟨c, _, by simp only [print, Numeral.print, hsign, hdecimal]; rfl, ?_, ?_⟩
      · exact isBlank_of_digit hdigit
      · rintro rfl
        cases hdigit
  | text s => cases s <;> exact ⟨_, _, rfl, by decide, by decide⟩
  | array items => exact ⟨'[', _, by rw [print]; rfl, by decide, by decide⟩
  | object fields => exact ⟨'\x7b', _, by rw [print]; rfl, by decide, by decide⟩

-- A tree is read back from its text, whatever may come after it. No step of a reader leaves the
-- text as it is, so that as many steps are enough as the text has characters.
def ReadsBack (j : Json) : Prop :=
  ∀ fuel rest, j.print.length ≤ fuel → Closes rest → value fuel (j.print ++ rest) = some (j, rest)

theorem readsBack_of_succ {j : Json} (h : ∀ fuel rest, j.print.length ≤ fuel + 1 → Closes rest →
    value (fuel + 1) (j.print ++ rest) = some (j, rest)) : ReadsBack j := by
  intro fuel rest hfuel hrest
  obtain ⟨c, cs, hprint, -, -⟩ := exists_head_print j
  cases fuel with
  | zero => simp [hprint] at hfuel
  | succ fuel => exact h fuel rest hfuel hrest

theorem skipBlank_print (j : Json) (rest : List Char) :
    skipBlank (j.print ++ rest) = j.print ++ rest := by
  obtain ⟨c, cs, hprint, hc, -⟩ := exists_head_print j
  rw [hprint, List.cons_append, skipBlank_cons hc]

theorem printItems_cons_cons (item next : Json) (items : List Json) :
    printItems (item :: next :: items) = item.print ++ ',' :: printItems (next :: items) := by
  rw [printItems]
  simp

theorem printItems_append (item : Json) (items : List Json) (rest : List Char) :
    ∃ more, printItems (item :: items) ++ rest = item.print ++ more := by
  cases items with
  | nil => exact ⟨rest, by simp [printItems]⟩
  | cons next items =>
    exact ⟨',' :: printItems (next :: items) ++ rest, by simp [printItems_cons_cons]⟩

theorem items_append {items : List Json} (hne : items ≠ []) (h : ∀ item ∈ items, ReadsBack item)
    (hfuel : (printItems items).length < fuel) :
    Reader.items fuel (printItems items ++ ']' :: rest) = some (items, rest) := by
  induction items generalizing fuel with
  | nil => exact absurd rfl hne
  | cons item items ih =>
    obtain ⟨fuel, rfl⟩ : ∃ n, fuel = n + 1 := ⟨fuel - 1, by omega⟩
    have hitem := h item List.mem_cons_self
    cases items with
    | nil =>
      simp only [printItems] at hfuel ⊢
      exact items_last (hitem fuel _ (by omega) (closes_cons (by decide)))
    | cons next items =>
      rw [printItems_cons_cons, List.length_append, List.length_cons] at hfuel
      rw [printItems_cons_cons, List.append_assoc, List.cons_append]
      obtain ⟨more, hmore⟩ := printItems_append next items (']' :: rest)
      refine items_more (hitem fuel _ (by omega) (closes_cons (by decide))) ?_
      rw [hmore, skipBlank_print, ← hmore]
      exact ih (by simp) (fun other hother => h other (List.mem_cons_of_mem item hother)) (by omega)

theorem quote_append (s : String) (cs : List Char) :
    quote s ++ cs = '\x22' :: (s.toList.flatMap escape ++ '\x22' :: cs) := by
  simp [quote]

theorem printFields_cons_cons (key : String) (j : Json) (next : Option String × Json)
    (fields : List (Option String × Json)) :
    printFields ((some key, j) :: next :: fields) =
      quote key ++ ':' :: (j.print ++ ',' :: printFields (next :: fields)) := by
  rw [printFields]
  · simp [quote?]
  · simp

theorem printFields_append (key : String) (j : Json) (fields : List (Option String × Json))
    (rest : List Char) :
    ∃ more, printFields ((some key, j) :: fields) ++ rest = '\x22' :: more := by
  cases fields with
  | nil => exact ⟨_, by simp only [printFields, quote?, List.append_assoc]; exact quote_append ..⟩
  | cons next fields =>
    exact ⟨_, by rw [printFields_cons_cons, List.append_assoc]; exact quote_append ..⟩

theorem fields_append {fields : List (Option String × Json)} (hne : fields ≠ [])
    (hkeys : ∀ field ∈ fields, field.1.isSome) (h : ∀ field ∈ fields, ReadsBack field.2)
    (hfuel : (printFields fields).length < fuel) :
    Reader.fields fuel (printFields fields ++ '\x7d' :: rest) = some (fields, rest) := by
  induction fields generalizing fuel with
  | nil => exact absurd rfl hne
  | cons field fields ih =>
    obtain ⟨fuel, rfl⟩ : ∃ n, fuel = n + 1 := ⟨fuel - 1, by omega⟩
    obtain ⟨_ | key, j⟩ := field
    · exact absurd (hkeys _ List.mem_cons_self) Bool.false_ne_true
    have hj : ReadsBack j := h (some key, j) List.mem_cons_self
    cases fields with
    | nil =>
      simp only [printFields, quote?, List.length_append, List.length_cons] at hfuel ⊢
      rw [List.append_assoc, List.cons_append, quote_append]
      refine fields_last (string_append key) ?_
      rw [skipBlank_print]
      exact hj fuel _ (by omega) (closes_cons (by decide))
    | cons next fields =>
      simp only [printFields_cons_cons, List.length_append, List.length_cons] at hfuel
      rw [printFields_cons_cons, List.append_assoc, List.cons_append, List.append_assoc,
        List.cons_append, quote_append]
      have hothers : Reader.fields fuel (printFields (next :: fields) ++ '\x7d' :: rest) =
          some (next :: fields, rest) :=
        ih (by simp) (fun other hother => hkeys other (List.mem_cons_of_mem _ hother))
          (fun other hother => h other (List.mem_cons_of_mem _ hother)) (by omega)
      refine fields_more (string_append key)
        (show _ = some (j, ',' :: (printFields (next :: fields) ++ '\x7d' :: rest)) from ?_) ?_
      · rw [skipBlank_print]
        exact hj fuel _ (by omega) (closes_cons (by decide))
      · obtain ⟨_ | name, value⟩ := next
        · exact absurd (hkeys (none, value) (by simp)) Bool.false_ne_true
        obtain ⟨more, hmore⟩ := printFields_append name value fields ('\x7d' :: rest)
        rw [hmore, skipBlank_cons (by decide), ← hmore]
        exact hothers

end Json.Reader

namespace Json

-- The trees that have a text of their own: no text or key in them is missing, and numbers are
-- made of digits.
inductive IsWritten : Json → Prop
  | null : IsWritten null
  | bool (b : Bool) : IsWritten (bool b)
  | number (n : Numeral) (h : ∀ d ∈ n.fraction, d < 10) : IsWritten (number n)
  | text (s : String) : IsWritten (text (some s))
  | array (items : List Json) (h : ∀ item ∈ items, IsWritten item) : IsWritten (array items)
  | object (fields : List (Option String × Json)) (hkeys : ∀ field ∈ fields, field.1.isSome)
      (h : ∀ field ∈ fields, IsWritten field.2) : IsWritten (object fields)

open Reader

theorem IsWritten.readsBack {j : Json} (h : IsWritten j) : ReadsBack j := by
  induction h with
  | null => exact readsBack_of_succ fun _ _ _ _ => word_append _ _
  | bool b => cases b <;> exact readsBack_of_succ fun _ _ _ _ => word_append _ _
  | number n hn =>
    exact readsBack_of_succ fun _ _ _ hrest => value_of_numeral (numeral_append hn hrest)
  | text s =>
    refine readsBack_of_succ fun fuel rest _ _ => ?_
    rw [print, quote?, quote_append, value, string_append, Option.map_some]
  | array items _ ih =>
    refine readsBack_of_succ fun fuel rest hfuel _ => ?_
    rw [print, List.length_append, List.length_cons, List.length_singleton] at hfuel
    rw [print, List.append_assoc, List.cons_append, List.singleton_append]
    cases items with
    | nil => rfl
    | cons item items =>
      obtain ⟨c, cs, hprint, hc, hclose⟩ := exists_head_print item
      obtain ⟨more, hmore⟩ := printItems_append item items (']' :: rest)
      have hskip : skipBlank (printItems (item :: items) ++ ']' :: rest) =
          printItems (item :: items) ++ ']' :: rest := by rw [hmore, skipBlank_print]
      refine value_of_items ?_ ?_
      · rw [hskip]
        exact items_append (by simp) ih (by omega)
      · rw [hskip, hmore, hprint, List.cons_append, List.head?_cons]
        simpa using hclose
  | object fields hkeys _ ih =>
    refine readsBack_of_succ fun fuel rest hfuel _ => ?_
    rw [print, List.length_append, List.length_cons, List.length_singleton] at hfuel
    rw [print, List.append_assoc, List.cons_append, List.singleton_append]
    cases fields with
    | nil => rfl
    | cons field fields =>
      obtain ⟨_ | key, j⟩ := field
      · exact absurd (hkeys _ List.mem_cons_self) Bool.false_ne_true
      obtain ⟨more, hmore⟩ := printFields_append key j fields ('\x7d' :: rest)
      have hskip : skipBlank (printFields ((some key, j) :: fields) ++ '\x7d' :: rest) =
          printFields ((some key, j) :: fields) ++ '\x7d' :: rest := by
        rw [hmore, skipBlank_cons (by decide)]
      refine value_of_fields ?_ ?_
      · rw [hskip]
        exact fields_append (by simp) hkeys ih (by omega)
      · rw [hskip, hmore]
        simp

-- What is printed is read back.
theorem ofText?_compact {j : Json} (h : IsWritten j) : ofText? j.compact = some j := by
  have hread := h.readsBack (2 * j.print.length + 2) [] (by omega) (by simp [Closes])
  have hskip := skipBlank_print j []
  rw [List.append_nil] at hread hskip
  simp only [ofText?, ofChars?, compact, String.toList_ofList, hskip, hread]
  rfl

theorem isWritten_ofNat (n : Nat) : (ofNat n).IsWritten := .number _ (by simp [Numeral.ofNat])

theorem isWritten_ofInt (i : Int) : (ofInt i).IsWritten := .number _ (by simp [Numeral.ofInt])

theorem isWritten_ofString (s : String) : (ofString s).IsWritten := .text s

theorem isWritten_ofOption {α : Type} {write : α → Json} (h : ∀ a, (write a).IsWritten)
    (given : Option α) : (ofOption write given).IsWritten := by
  cases given with
  | none => exact .null
  | some a => exact h a

theorem isWritten_record {fields : List (String × Json)}
    (h : ∀ field ∈ fields, field.2.IsWritten) : (record fields).IsWritten := by
  refine .object _ ?_ ?_
  · exact List.forall_mem_map.mpr fun _ _ => rfl
  · exact List.forall_mem_map.mpr h

end Json

end Foreman
