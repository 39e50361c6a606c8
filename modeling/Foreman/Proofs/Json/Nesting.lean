import Foreman.Job.Basic
import Foreman.Json.Canonical
import Mathlib.Data.List.Basic
import Mathlib.Order.Lattice

namespace Foreman

namespace Json

mutual

-- How many arrays and objects stand around one another at most.
def levels : Json → Nat
  | array items => levelsOfItems items + 1
  | object fields => levelsOfFields fields + 1
  | _ => 0

def levelsOfItems : List Json → Nat
  | [] => 0
  | item :: rest => max (levels item) (levelsOfItems rest)

def levelsOfFields : List (Option String × Json) → Nat
  | [] => 0
  | (_, j) :: rest => max (levels j) (levelsOfFields rest)

end

@[simp] theorem levels_ofNat (n : Nat) : (ofNat n).levels = 0 := rfl

@[simp] theorem levels_ofInt (i : Int) : (ofInt i).levels = 0 := rfl

@[simp] theorem levels_ofString (s : String) : (ofString s).levels = 0 := rfl

@[simp] theorem levels_record (fields : List (String × Json)) : (record fields).levels =
    levelsOfFields (fields.map fun field => (some field.1, field.2)) + 1 := rfl

theorem levels_ofOption {α : Type} {write : α → Json} (h : ∀ a, (write a).levels = 0)
    (given : Option α) : (ofOption write given).levels = 0 := by
  cases given with
  | none => rfl
  | some a => exact h a

-- The trees that are held just as they were read: keys are in rising order, none of them twice,
-- and all numbers are whole ones of 64 bits.
inductive IsExact : Json → Prop
  | null : IsExact null
  | bool (b : Bool) : IsExact (bool b)
  | whole (i : Int) (hlow : lowest ≤ i) (hhigh : i ≤ highest) : IsExact (ofInt i)
  | text (s : String) : IsExact (ofString s)
  | array (items : List Json) (h : ∀ item ∈ items, IsExact item) : IsExact (array items)
  | object (fields : List (String × Json)) (hkeys : (fields.map Prod.fst).Pairwise (· < ·))
      (h : ∀ field ∈ fields, IsExact field.2) : IsExact (record fields)

theorem readInt_ofInt {low high i : Int} (hlow : lowest ≤ low) (hhigh : high ≤ highest)
    (h : low ≤ i ∧ i ≤ high) : readInt low high (ofInt i) = .ok i := by
  have hwhole : whole? (Numeral.ofInt i) = some i := whole?_ofInt (by omega) (by omega)
  simp only [readInt, ofInt, hwhole, if_pos h]

theorem insertField_of_last {key : String} {j : Json} {fields : List (String × Json)}
    (h : ∀ field ∈ fields, field.1 < key) : insertField key j fields = fields ++ [(key, j)] := by
  induction fields with
  | nil => rfl
  | cons field fields ih =>
    have hfield : field.1 < key := h field List.mem_cons_self
    have hother : key ≠ field.1 := by
      rintro rfl
      exact String.lt_irrefl _ hfield
    rw [insertField, if_neg (String.lt_asymm hfield), if_neg hother,
      ih fun other hother => h other (List.mem_cons_of_mem field hother), List.cons_append]

variable {depth : Nat}

theorem canonicalItems_eq {items : List Json} (h : ∀ item ∈ items, canonical depth item =
    if item.levels ≤ depth then some item else none) :
    canonicalItems depth items = if levelsOfItems items ≤ depth then some items else none := by
  induction items with
  | nil => simp [canonicalItems, levelsOfItems]
  | cons item items ih =>
    have hitem := h item List.mem_cons_self
    have hitems := ih fun other hother => h other (List.mem_cons_of_mem item hother)
    rw [canonicalItems, hitem, levelsOfItems]
    by_cases hfirst : item.levels ≤ depth
    · simp only [hfirst, if_true, hitems, Nat.max_le, true_and]
      split <;> rfl
    · simp [hfirst]

theorem canonicalFields_eq {fields seen : List (String × Json)}
    (hkeys : ((seen ++ fields).map Prod.fst).Pairwise (· < ·))
    (h : ∀ field ∈ fields, canonical depth field.2 =
      if field.2.levels ≤ depth then some field.2 else none) :
    canonicalFields depth (fields.map fun field => (some field.1, field.2)) seen =
      if levelsOfFields (fields.map fun field => (some field.1, field.2)) ≤ depth then
        some (seen ++ fields) else none := by
  induction fields generalizing seen with
  | nil => simp [canonicalFields, levelsOfFields]
  | cons field fields ih =>
    have hfield := h field List.mem_cons_self
    have hlast : ∀ other ∈ seen, other.1 < field.1 := by
      intro other hother
      rw [List.map_append, List.pairwise_append] at hkeys
      exact hkeys.2.2 other.1 (List.mem_map_of_mem hother) field.1 (by simp)
    have hfields := @ih (seen ++ [field]) (by simpa using hkeys)
      fun other hother => h other (List.mem_cons_of_mem field hother)
    rw [List.map_cons, canonicalFields, hfield, levelsOfFields]
    by_cases hfirst : field.2.levels ≤ depth
    · simp only [hfirst, if_true, insertField_of_last hlast, Nat.max_le, true_and]
      rw [hfields, List.append_assoc, List.singleton_append]
    · simp [hfirst]

theorem canonicalFields_record {fields : List (String × Json)}
    (hkeys : (fields.map Prod.fst).Pairwise (· < ·))
    (h : ∀ field ∈ fields, canonical depth field.2 =
      if field.2.levels ≤ depth then some field.2 else none) :
    canonicalFields depth (fields.map fun field => (some field.1, field.2)) [] =
      if levelsOfFields (fields.map fun field => (some field.1, field.2)) ≤ depth then
        some fields else none :=
  canonicalFields_eq hkeys h

-- A tree that is held as it is comes out of reading unchanged, if it is not too deep, and not at
-- all otherwise.
theorem IsExact.canonical {j : Json} (h : IsExact j) (depth : Nat) :
    canonical depth j = if j.levels ≤ depth then some j else none := by
  induction h generalizing depth with
  | null => simp [Json.canonical, levels]
  | bool b => simp [Json.canonical, levels]
  | whole i hlow hhigh =>
    have hnumber : canonicalNumber (Numeral.ofInt i) = some (Numeral.ofInt i) := by
      simp [canonicalNumber, whole?_ofInt hlow hhigh]
    simp [ofInt, Json.canonical, levels, hnumber]
  | text s => simp [ofString, Json.canonical, levels]
  | array items _ ih =>
    cases depth with
    | zero => simp [Json.canonical, levels]
    | succ depth =>
      simp only [Json.canonical, levels, canonicalItems_eq fun item hitem => ih item hitem depth,
        Nat.add_le_add_iff_right]
      split <;> rfl
  | object fields hkeys _ ih =>
    cases depth with
    | zero => simp [Json.record, Json.canonical, levels]
    | succ depth =>
      have hfields := canonicalFields_record hkeys fun field hfield => ih field hfield depth
      simp only [Json.record, Json.canonical, levels, hfields, Nat.add_le_add_iff_right]
      split <;> rfl

end Json

-- Parameters that are held just as they were read, under names in rising order.
structure Params.IsExact (params : Params) : Prop where
  rising : (params.map Prod.fst).Pairwise (· < ·)
  exact : ∀ field ∈ params, field.2.IsExact

namespace Json

theorem readParams_record {params : Params} (h : params.IsExact) (depth : Nat) :
    readParams depth (record params) =
      if (record params).levels ≤ depth + 1 then .ok params else .error .other := by
  have hfields := canonicalFields_record h.rising fun field hfield =>
    (h.exact field hfield).canonical depth
  simp only [record, readParams, hfields, levels, Nat.add_le_add_iff_right]
  by_cases hdepth : levelsOfFields (params.map fun field => (some field.1, field.2)) ≤ depth
  · simp only [if_pos hdepth]
  · simp only [if_neg hdepth]

end Json

end Foreman
