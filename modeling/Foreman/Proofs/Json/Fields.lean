import Foreman.Json.Record
import Foreman.Proofs.Decimal.Literal
import Foreman.Proofs.Keyed
import Mathlib.Data.List.Perm.Subperm
import Mathlib.Data.List.Zip

namespace Foreman.Json

theorem bind_eq_ok_iff {ε α β : Type} {x : Except ε α} {f : α → Except ε β} {b : β} :
    x >>= f = .ok b ↔ ∃ a, x = .ok a ∧ f a = .ok b := by
  cases x with
  | error fault => simp [bind, Except.bind]
  | ok a => simp [bind, Except.bind]

theorem map_eq_ok_iff {ε α β : Type} {x : Except ε α} {f : α → β} {b : β} :
    x.map f = .ok b ↔ ∃ a, x = .ok a ∧ f a = b := by
  cases x with
  | error fault => simp [Except.map]
  | ok a => simp [Except.map]

def IsNat (bits : Nat) (j : Json) (n : Nat) : Prop := j = .ofNat n ∧ n < twos bits

def IsString (j : Json) (s : String) : Prop := j = .ofString s

-- A number is the float next to it. Whole numbers of 64 bits are rounded once, and all others are
-- put together from the digits that there is room for.
inductive IsFloat : Json → Float → Prop
  | whole {i : Int} {x : Float} (hlow : lowest ≤ i) (hhigh : i ≤ highest)
      (hx : Decimal.Approximates x i) : IsFloat (.ofInt i) x
  | other {n : Numeral} {x : Float} (hn : ∀ i, lowest ≤ i → i ≤ highest → n ≠ .ofInt i)
      (hx : Decimal.Denotes n x) : IsFloat (.number n) x

theorem whole?_eq_some_iff {m : Numeral} {i : Int} :
    whole? m = some i ↔ m = .ofInt i ∧ lowest ≤ i ∧ i ≤ highest := by
  constructor
  · intro h
    obtain ⟨negative, whole, fraction, exponent⟩ := m
    simp only [whole?, Numeral.toInt?, Option.bind_eq_some_iff, Option.ite_none_right_eq_some,
      Option.some.injEq] at h
    obtain ⟨value, ⟨⟨hform, hzero⟩, hvalue⟩, hrange, rfl⟩ := h
    refine ⟨?_, hrange⟩
    simp only [Numeral.isIntegral, Bool.and_eq_true, List.isEmpty_iff, Option.isNone_iff_eq_none]
      at hform
    obtain ⟨rfl, rfl⟩ := hform
    rw [Numeral.ofInt, Numeral.mk.injEq]
    cases negative with
    | true =>
      simp only [if_true, true_and] at hzero hvalue
      exact ⟨(decide_eq_true (by omega)).symm, by omega, rfl, rfl⟩
    | false =>
      simp only [Bool.false_eq_true, if_false] at hvalue
      exact ⟨(decide_eq_false (by omega)).symm, by omega, rfl, rfl⟩
  · rintro ⟨rfl, hlow, hhigh⟩
    exact whole?_ofInt hlow hhigh

theorem readFloat_eq_ok_iff (j : Json) (x : Float) : readFloat j = .ok x ↔ IsFloat j x := by
  constructor
  · intro h
    cases j with
    | number n =>
      rw [readFloat] at h
      split at h
      · rename_i i hwhole
        obtain ⟨rfl, hlow, hhigh⟩ := whole?_eq_some_iff.mp hwhole
        exact .whole hlow hhigh ((Decimal.approximates_int_iff i).mpr (Except.ok.inj h))
      · rename_i hnone
        have hn : ∀ i, lowest ≤ i → i ≤ highest → n ≠ .ofInt i := fun i hlow hhigh he =>
          Option.some_ne_none i ((whole?_eq_some_iff.mpr ⟨he, hlow, hhigh⟩).symm.trans hnone)
        split at h
        · rename_i hof
          obtain rfl := Except.ok.inj h
          exact .other hn (Decimal.ofNumeral?_eq_some_iff.mp hof)
        · cases h
    | _ => cases h
  · rintro (⟨hlow, hhigh, hx⟩ | ⟨hn, hx⟩)
    · rename_i i
      simp only [ofInt, readFloat, whole?_ofInt hlow hhigh, (Decimal.approximates_int_iff i).mp hx]
    · rename_i n
      have hnone : whole? n = none := by
        refine Option.eq_none_iff_forall_ne_some.mpr fun i hi => ?_
        obtain ⟨he, hlow, hhigh⟩ := whole?_eq_some_iff.mp hi
        exact hn i hlow hhigh he
      simp only [readFloat, hnone, Decimal.ofNumeral?_eq_some_iff.mpr hx]

-- Only digits, without a sign, a point or an exponent, make a whole number that is not negative.
theorem eq_ofNat_of_whole? {m : Numeral} {i : Int} (h : whole? m = some i) (hi : 0 ≤ i) :
    m = .ofNat i.toNat := by
  obtain ⟨rfl, -⟩ := whole?_eq_some_iff.mp h
  obtain ⟨n, rfl⟩ := Int.eq_ofNat_of_zero_le hi
  rw [Numeral.ofInt, decide_eq_false (not_lt.mpr hi)]
  rfl

theorem readNat_eq_ok_iff (bits : Nat) (hbits : bits ≤ 64) (j : Json) (n : Nat) :
    readNat bits j = .ok n ↔ IsNat bits j n := by
  constructor
  · intro h
    cases j with
    | number m =>
      simp only [readNat, readInt] at h
      split at h
      · rename_i i hwhole
        split at h
        · rename_i hrange
          obtain rfl : i.toNat = n := Except.ok.inj h
          refine ⟨congrArg number (eq_ofNat_of_whole? hwhole hrange.1), ?_⟩
          have hpos := twos_pos bits
          omega
        · cases h
      · cases h
    | _ => cases h
  · rintro ⟨rfl, hn⟩
    exact readNat_ofNat hn hbits

theorem readString_eq_ok_iff (j : Json) (s : String) : readString j = .ok s ↔ IsString j s := by
  constructor
  · intro h
    cases j with
    | text content =>
      cases content with
      | none => cases h
      | some content => exact congrArg ofString (Except.ok.inj h)
    | _ => cases h
  · rintro rfl
    rfl

theorem readOption_ofOption {α : Type} {write : α → Json} {read : Json → Except Misfit α}
    {given : Option α} (hnull : ∀ a, write a ≠ null) (h : ∀ a ∈ given, read (write a) = .ok a) :
    readOption read (ofOption write given) = .ok given := by
  cases given with
  | none => rfl
  | some a =>
    have hread : read (write a) = .ok a := h a rfl
    unfold ofOption readOption
    split
    · rename_i he
      exact absurd he (hnull a)
    · rw [hread]
      rfl

namespace Record

-- The fields of a structure, which are those of an object, or the items of an array in the order
-- of the keys.
inductive Lists (keys : List String) : Json → List (String × Json) → Prop
  | object (fields : List (String × Json)) : Lists keys (.record fields) fields
  | array (items : List Json) (h : items.length ≤ keys.length) :
      Lists keys (.array items) (keys.zip items)

-- A field is left out, or there once with a value that means something.
def Gives {α : Type} (fields : List (String × Json)) (key : String) (means : Json → α → Prop) :
    Option α → Prop
  | none => ∀ field ∈ fields, field.1 ≠ key
  | some a => ∃ j, fields.filter (fun field => field.1 == key) = [(key, j)] ∧ means j a

def Knows (spec : List Field) (field : String × Json) : Bool :=
  spec.any (fun known => known.key == field.1)

-- The fields that are known, whatever else there is.
def known (spec : List Field) (fields : List (String × Json)) : List (String × Json) :=
  fields.filter (Knows spec)

-- No known field is there twice, and each has a value that fits.
structure Fits (spec : List Field) (fields : List (String × Json)) : Prop where
  once : ((known spec fields).map Prod.fst).Nodup
  checked : ∀ field ∈ spec, ∀ entry ∈ fields, entry.1 = field.key → field.check entry.2 = .ok ()

variable {α β : Type} {spec : List Field} {fields seen out : List (String × Json)} {key : String}
  {means : Json → α → Prop} {given : Option α} {read : Json → Except Misfit α} {standard a : α}
  {strangers : Strangers}

theorem gives_none (h : key ∉ fields.map Prod.fst) : Gives fields key means none :=
  fun _ hfield he => h (he ▸ List.mem_map_of_mem hfield)

theorem knows_iff {field : String × Json} : Knows spec field = true ↔ field.1 ∈ spec.map Field.key := by
  simp [Knows]

theorem known_cons_of_find? {field : Field} {entry : String × Json}
    (h : spec.find? (fun field => field.key == entry.1) = some field) :
    known spec (entry :: fields) = entry :: known spec fields := by
  refine List.filter_cons_of_pos ?_
  exact List.any_eq_true.mpr ⟨field, List.mem_of_find?_eq_some h, by simpa using List.find?_some h⟩

theorem known_cons_of_none {entry : String × Json}
    (h : spec.find? (fun field => field.key == entry.1) = none) :
    known spec (entry :: fields) = known spec fields := by
  refine List.filter_cons_of_neg ?_
  simpa [Knows] using h

-- What is there to check, one field at a time.

theorem checked_cons_of_none {entry : String × Json}
    (h : spec.find? (fun field => field.key == entry.1) = none) :
    (∀ field ∈ spec, ∀ other ∈ entry :: fields, other.1 = field.key →
        field.check other.2 = .ok ()) ↔
      ∀ field ∈ spec, ∀ other ∈ fields, other.1 = field.key → field.check other.2 = .ok () := by
  refine forall₂_congr fun field hfield => ?_
  have hstranger : entry.1 ≠ field.key := fun he =>
    List.find?_eq_none.mp h field hfield (beq_iff_eq.mpr he.symm)
  simp [hstranger]

theorem checked_cons_of_find? (hspec : (spec.map Field.key).Nodup) {field : Field}
    {entry : String × Json} (h : spec.find? (fun field => field.key == entry.1) = some field) :
    (∀ own ∈ spec, ∀ other ∈ entry :: fields, other.1 = own.key → own.check other.2 = .ok ()) ↔
      field.check entry.2 = .ok () ∧
        ∀ own ∈ spec, ∀ other ∈ fields, other.1 = own.key → own.check other.2 = .ok () := by
  have hfield : field ∈ spec := List.mem_of_find?_eq_some h
  have hkey : field.key = entry.1 := by simpa using List.find?_some h
  constructor
  · intro hall
    refine ⟨hall field hfield entry List.mem_cons_self hkey.symm, fun own hown other hother => ?_⟩
    exact hall own hown other (List.mem_cons_of_mem _ hother)
  · rintro ⟨hfirst, hrest⟩ own hown
    refine List.forall_mem_cons.mpr ⟨fun he => ?_, hrest own hown⟩
    rw [List.inj_on_of_nodup_map hspec hown hfield (he.symm.trans hkey.symm)]
    exact hfirst

-- A scan goes through if all known fields fit and none is there twice.
theorem scanFields_eq_ok_iff (hspec : (spec.map Field.key).Nodup)
    (hseen : (seen.map Prod.fst).Nodup) :
    scanFields spec .ignored (fields.map fun field => (some field.1, field.2)) seen = .ok out ↔
      (∀ field ∈ spec, ∀ entry ∈ fields, entry.1 = field.key → field.check entry.2 = .ok ()) ∧
        ((seen ++ known spec fields).map Prod.fst).Nodup ∧ out = seen ++ known spec fields := by
  induction fields generalizing seen with
  | nil => simp [scanFields, known, hseen, eq_comm]
  | cons entry rest ih =>
    simp only [List.map_cons, scanFields]
    cases hfind : spec.find? (fun field => field.key == entry.1) with
    | none =>
      rw [known_cons_of_none hfind, checked_cons_of_none hfind]
      exact ih hseen
    | some field =>
      rw [known_cons_of_find? hfind, checked_cons_of_find? hspec hfind]
      simp only
      split
      · rename_i hthere
        obtain ⟨other, hother, hsame⟩ := List.any_eq_true.mp hthere
        refine iff_of_false (by simp) fun ⟨_, hnodup, _⟩ => ?_
        rw [List.map_append] at hnodup
        have hdisjoint := List.disjoint_of_nodup_append hnodup (List.mem_map_of_mem hother)
        exact hdisjoint (by simpa using .inl (beq_iff_eq.mp hsame))
      · rename_i hnew
        have hnodup : ((seen ++ [entry]).map Prod.fst).Nodup := by
          rw [List.map_append]
          refine List.Nodup.append hseen (List.nodup_singleton entry.1) ?_
          rintro key hold hkey
          obtain ⟨other, hother, rfl⟩ := List.mem_map.mp hold
          exact hnew (List.any_eq_true.mpr ⟨other, hother, by simpa using hkey⟩)
        cases hcheck : field.check entry.2 with
        | error misfit => exact iff_of_false (by simp) fun ⟨hchecked, _⟩ => by simp at hchecked
        | ok _ => simp only [ih hnodup, List.append_assoc, List.singleton_append, true_and]

theorem scanFields_nil_eq_ok_iff (hspec : (spec.map Field.key).Nodup) :
    scanFields spec .ignored (fields.map fun field => (some field.1, field.2)) [] = .ok out ↔
      Fits spec fields ∧ out = known spec fields := by
  have hnone : (([] : List (String × Json)).map Prod.fst).Nodup := List.nodup_nil
  rw [scanFields_eq_ok_iff hspec hnone]
  exact ⟨fun ⟨hchecked, honce, hout⟩ => ⟨⟨honce, hchecked⟩, hout⟩,
    fun ⟨hfits, hout⟩ => ⟨hfits.checked, hfits.once, hout⟩⟩

theorem exists_fields_of_scanFields {entries : List (Option String × Json)}
    (h : scanFields spec .ignored entries seen = .ok out) :
    ∃ fields : List (String × Json), entries = fields.map fun field => (some field.1, field.2) := by
  induction entries generalizing seen with
  | nil => exact ⟨[], rfl⟩
  | cons entry rest ih =>
    obtain ⟨_ | key, j⟩ := entry
    · cases h
    · have hrest : ∃ seen, scanFields spec .ignored rest seen = .ok out := by
        simp only [scanFields] at h
        split at h
        · exact ⟨_, h⟩
        · split at h
          · cases h
          · split at h
            · cases h
            · exact ⟨_, h⟩
      obtain ⟨_, hscan⟩ := hrest
      obtain ⟨fields, rfl⟩ := ih hscan
      exact ⟨(key, j) :: fields, rfl⟩

theorem scanItems_eq_ok_iff {items : List Json} : scanItems spec items = .ok out ↔
    items.length ≤ spec.length ∧ (∀ pair ∈ spec.zip items, pair.1.check pair.2 = .ok ()) ∧
      out = (spec.map Field.key).zip items := by
  induction items generalizing spec out with
  | nil => simp [scanItems, eq_comm]
  | cons j rest ih =>
    cases spec with
    | nil => simp [scanItems]
    | cons field spec =>
      cases hcheck : field.check j with
      | error misfit => simp [scanItems, hcheck]
      | ok _ =>
        simp only [scanItems, hcheck, map_eq_ok_iff, ih, List.length_cons, Nat.add_le_add_iff_right,
          List.zip_cons_cons, List.forall_mem_cons, List.map_cons, true_and]
        constructor
        · rintro ⟨_, ⟨hlength, hchecked, rfl⟩, rfl⟩
          exact ⟨hlength, hchecked, rfl⟩
        · rintro ⟨hlength, hchecked, rfl⟩
          exact ⟨_, ⟨hlength, hchecked, rfl⟩, rfl⟩

theorem map_fst_zip_sublist (keys : List String) (items : List Json) :
    ((keys.zip items).map Prod.fst).Sublist keys := by
  induction keys generalizing items with
  | nil => simp
  | cons key keys ih =>
    cases items with
    | nil => simp
    | cons j items => exact (ih items).cons_cons key

-- Items are all known.
theorem known_zip (spec : List Field) (items : List Json) :
    known spec ((spec.map Field.key).zip items) = (spec.map Field.key).zip items := by
  refine List.filter_eq_self.mpr fun entry hentry => knows_iff.mpr ?_
  exact (map_fst_zip_sublist _ _).subset (List.mem_map_of_mem hentry)

theorem fits_zip_iff (hspec : (spec.map Field.key).Nodup) {items : List Json} :
    Fits spec ((spec.map Field.key).zip items) ↔
      ∀ pair ∈ spec.zip items, pair.1.check pair.2 = .ok () := by
  have hzip : (spec.map Field.key).zip items =
      (spec.zip items).map fun pair => (pair.1.key, pair.2) := List.zip_map_left
  constructor
  · intro h pair hpair
    refine h.checked pair.1 (List.of_mem_zip hpair).1 (pair.1.key, pair.2) ?_ rfl
    rw [hzip]
    exact List.mem_map_of_mem hpair
  · intro h
    refine ⟨?_, fun field hfield entry hentry he => ?_⟩
    · rw [known_zip]
      exact hspec.sublist (map_fst_zip_sublist _ _)
    · rw [hzip] at hentry
      obtain ⟨pair, hpair, rfl⟩ := List.mem_map.mp hentry
      rw [← List.inj_on_of_nodup_map hspec (List.of_mem_zip hpair).1 hfield he]
      exact h pair hpair

-- What is read of a structure of which nothing need be there.
theorem someFields_eq_ok_iff (hspec : (spec.map Field.key).Nodup) {j : Json} :
    someFields spec j = .ok seen ↔
      ∃ fields, Lists (spec.map Field.key) j fields ∧ Fits spec fields ∧ seen = known spec fields := by
  constructor
  · intro h
    cases j with
    | object entries =>
      obtain ⟨fields, rfl⟩ := exists_fields_of_scanFields h
      obtain ⟨hfits, hseen⟩ := (scanFields_nil_eq_ok_iff hspec).mp h
      exact ⟨fields, .object fields, hfits, hseen⟩
    | array items =>
      obtain ⟨hlength, hchecked, rfl⟩ := scanItems_eq_ok_iff.mp h
      exact ⟨_, .array items (by simpa using hlength), (fits_zip_iff hspec).mpr hchecked,
        (known_zip spec items).symm⟩
    | _ => cases h
  · rintro ⟨fields, hlists, hfits, rfl⟩
    cases hlists with
    | object _ => exact (scanFields_nil_eq_ok_iff hspec).mpr ⟨hfits, rfl⟩
    | array items hlength =>
      exact scanItems_eq_ok_iff.mpr
        ⟨by simpa using hlength, (fits_zip_iff hspec).mp hfits, known_zip spec items⟩

-- Where all of a structure has to be there, no item may be missing.
theorem fields_eq_ok_iff {j : Json} : Record.fields spec .ignored j = .ok seen ↔
    someFields spec j = .ok seen ∧ ((∃ items, j = .array items) → spec.length ≤ seen.length) := by
  cases j with
  | object entries => simp [Record.fields, someFields]
  | array items =>
    simp only [Record.fields, someFields, Json.array.injEq, exists_eq', true_imp_iff]
    cases hscan : scanItems spec items with
    | error misfit => simp
    | ok seen' =>
      simp only [Except.ok.injEq]
      split
      · rename_i hfew
        refine iff_of_false (by simp) ?_
        rintro ⟨rfl, henough⟩
        omega
      · rename_i henough
        constructor
        · intro h
          obtain rfl := Except.ok.inj h
          exact ⟨rfl, by omega⟩
        · rintro ⟨rfl, -⟩
          rfl
  | _ => simp [Record.fields, someFields]

theorem find?_known (hkey : key ∈ spec.map Field.key) :
    (known spec fields).find? (fun field => field.1 == key) =
      fields.find? fun field => field.1 == key := by
  rw [known, List.find?_filter]
  congr 1
  funext field
  by_cases he : field.1 = key
  · simp [he, knows_iff.mpr (show field.1 ∈ spec.map Field.key from he ▸ hkey)]
  · simp [he]

theorem filter_known (hkey : key ∈ spec.map Field.key) :
    (known spec fields).filter (fun field => field.1 == key) =
      fields.filter fun field => field.1 == key := by
  rw [known, List.filter_filter]
  refine List.filter_congr fun field _ => ?_
  by_cases he : field.1 = key
  · simp [he, knows_iff.mpr (show field.1 ∈ spec.map Field.key from he ▸ hkey)]
  · simp [he]

theorem lookup_eq_none_iff (hkey : key ∈ spec.map Field.key) :
    lookup (known spec fields) key = none ↔ ∀ field ∈ fields, field.1 ≠ key := by
  simp [lookup, find?_known hkey]

theorem lookup_eq_some_iff (h : Fits spec fields) (hkey : key ∈ spec.map Field.key) {j : Json} :
    lookup (known spec fields) key = some j ↔
      fields.filter (fun field => field.1 == key) = [(key, j)] := by
  rw [← filter_known hkey, lookup]
  constructor
  · intro hlookup
    obtain ⟨⟨other, _⟩, hfind, rfl⟩ := Option.map_eq_some_iff.mp hlookup
    obtain rfl : other = key := by simpa using List.find?_some hfind
    exact Keyed.filter_key h.once (List.mem_of_find?_eq_some hfind)
  · intro hfilter
    rw [← List.head?_filter, hfilter]
    rfl

-- What a field says decides what is read of it.
theorem defaulted_eq_ok_iff (h : Fits spec fields) (hkey : key ∈ spec.map Field.key)
    (hread : ∀ j a, read j = .ok a ↔ means j a) :
    defaulted (known spec fields) key read standard = .ok a ↔
      ∃ given, Gives fields key means given ∧ a = given.getD standard := by
  unfold defaulted
  constructor
  · intro hok
    split at hok
    · rename_i j hlookup
      exact ⟨some a, ⟨j, (lookup_eq_some_iff h hkey).mp hlookup, (hread j a).mp hok⟩, rfl⟩
    · rename_i hlookup
      exact ⟨none, (lookup_eq_none_iff hkey).mp hlookup, (Except.ok.inj hok).symm⟩
  · rintro ⟨given, hgives, rfl⟩
    cases given with
    | none =>
      rw [(lookup_eq_none_iff hkey).mpr hgives]
      rfl
    | some a =>
      obtain ⟨j, hfilter, hmeans⟩ := hgives
      rw [(lookup_eq_some_iff h hkey).mpr hfilter]
      exact (hread j a).mpr hmeans

theorem required_eq_ok_iff (h : Fits spec fields) (hkey : key ∈ spec.map Field.key)
    (hread : ∀ j a, read j = .ok a ↔ means j a) :
    required (known spec fields) key read = .ok a ↔ Gives fields key means (some a) := by
  unfold required
  constructor
  · intro hok
    split at hok
    · rename_i j hlookup
      exact ⟨j, (lookup_eq_some_iff h hkey).mp hlookup, (hread j a).mp hok⟩
    · cases hok
  · rintro ⟨j, hfilter, hmeans⟩
    rw [(lookup_eq_some_iff h hkey).mpr hfilter]
    exact (hread j a).mpr hmeans

theorem Gives.exists_mem (h : Gives fields key means (some a)) : ∃ field ∈ fields, field.1 = key := by
  obtain ⟨j, hfilter, -⟩ := h
  have hmem : (key, j) ∈ fields.filter fun field => field.1 == key := hfilter ▸ List.mem_cons_self
  exact ⟨(key, j), (List.mem_filter.mp hmem).1, rfl⟩

-- Where all fields are there, there are as many as there should be.
theorem length_le_known (hspec : (spec.map Field.key).Nodup)
    (hall : ∀ key ∈ spec.map Field.key, ∃ field ∈ fields, field.1 = key) :
    spec.length ≤ (known spec fields).length := by
  have hsubset : spec.map Field.key ⊆ (known spec fields).map Prod.fst := by
    intro key hkey
    obtain ⟨field, hfield, rfl⟩ := hall key hkey
    exact List.mem_map_of_mem (List.mem_filter.mpr ⟨hfield, knows_iff.mpr hkey⟩)
  simpa using (List.subperm_of_subset hspec hsubset).length_le

-- Fields fit if each known one is left out, or there once with a value that can be read.
theorem fits_of_gives (h : ∀ field ∈ spec, ∃ given : Option Unit,
    Gives fields field.key (fun j _ => field.check j = .ok ()) given) : Fits spec fields := by
  constructor
  · rw [List.nodup_iff_count_le_one]
    intro key
    rw [List.count_eq_length_filter, List.filter_map, List.length_map]
    show ((known spec fields).filter fun field => field.1 == key).length ≤ 1
    by_cases hkey : key ∈ spec.map Field.key
    · rw [filter_known hkey]
      obtain ⟨field, hfield, rfl⟩ := List.mem_map.mp hkey
      obtain ⟨_ | _, hgives⟩ := h field hfield
      · rw [List.filter_eq_nil_iff.mpr fun entry hentry => by simpa using hgives entry hentry]
        exact Nat.zero_le 1
      · obtain ⟨j, hfilter, -⟩ := hgives
        rw [hfilter]
        exact Nat.le_refl 1
    · rw [List.filter_eq_nil_iff.mpr fun entry hentry he => ?_]
      · exact Nat.zero_le 1
      · exact hkey (beq_iff_eq.mp he ▸ knows_iff.mp (List.mem_filter.mp hentry).2)
  · intro field hfield entry hentry he
    obtain ⟨_ | _, hgives⟩ := h field hfield
    · exact absurd he (hgives entry hentry)
    · obtain ⟨j, hfilter, hcheck⟩ := hgives
      have hmem : entry ∈ fields.filter fun entry => entry.1 == field.key :=
        List.mem_filter.mpr ⟨hentry, by simpa using he⟩
      rw [hfilter, List.mem_singleton] at hmem
      rw [hmem]
      exact hcheck

theorem Gives.check (h : Gives fields key means given)
    (hread : ∀ j a, read j = .ok a ↔ means j a) :
    ∃ checked : Option Unit,
      Gives fields key (fun j _ => (Field.of key read).check j = .ok ()) checked := by
  cases given with
  | none => exact ⟨none, h⟩
  | some a =>
    obtain ⟨j, hfilter, hmeans⟩ := h
    exact ⟨some (), j, hfilter, map_eq_ok_iff.mpr ⟨a, (hread j a).mpr hmeans, rfl⟩⟩

-- The order of the known fields and all other fields do not matter.
theorem Gives.of_perm {others : List (String × Json)} (h : Gives fields key means given)
    (hkey : key ∈ spec.map Field.key) (hperm : (known spec others).Perm (known spec fields)) :
    Gives others key means given := by
  have hfilter := hperm.filter fun field => field.1 == key
  rw [filter_known hkey, filter_known hkey] at hfilter
  cases given with
  | none =>
    intro field hfield he
    have hmem : field ∈ fields.filter fun field => field.1 == key :=
      hfilter.subset (List.mem_filter.mpr ⟨hfield, by simpa using he⟩)
    exact h field (List.mem_filter.mp hmem).1 he
  | some a =>
    obtain ⟨j, hone, hmeans⟩ := h
    rw [hone] at hfilter
    exact ⟨j, List.perm_singleton.mp hfilter, hmeans⟩

theorem gives_map_iff {f : α → β} {given : Option β} :
    Gives fields key (fun j b => ∃ a, means j a ∧ f a = b) given ↔
      ∃ plain, Gives fields key means plain ∧ plain.map f = given := by
  constructor
  · intro h
    cases given with
    | none => exact ⟨none, h, rfl⟩
    | some b =>
      obtain ⟨j, hfilter, a, hmeans, rfl⟩ := h
      exact ⟨some a, ⟨j, hfilter, hmeans⟩, rfl⟩
  · rintro ⟨plain, h, rfl⟩
    cases plain with
    | none => exact h
    | some a =>
      obtain ⟨j, hfilter, hmeans⟩ := h
      exact ⟨j, hfilter, a, hmeans, rfl⟩

-- A field that stands in its place, with a value that can be read.
structure Field.Holds (field : Field) (entry : String × Json) : Prop where
  key : field.key = entry.1
  check : field.check entry.2 = .ok ()

theorem Field.holds_of {j : Json} (h : read j = .ok a) : (Field.of key read).Holds (key, j) :=
  ⟨rfl, map_eq_ok_iff.mpr ⟨a, h, rfl⟩⟩

theorem scanFields_of_holds (hspec : (spec.map Field.key).Nodup)
    (hholds : ∀ entry ∈ fields, ∃ field ∈ spec, field.Holds entry)
    (honce : ((seen ++ fields).map Prod.fst).Nodup) :
    scanFields spec strangers (fields.map fun field => (some field.1, field.2)) seen =
      .ok (seen ++ fields) := by
  induction fields generalizing seen with
  | nil => simp [scanFields]
  | cons entry rest ih =>
    obtain ⟨field, hfield, hkey, hcheck⟩ := hholds entry List.mem_cons_self
    have hfind : spec.find? (fun other => other.key == entry.1) = some field :=
      hkey ▸ Keyed.find?_key hspec hfield
    have hnew : seen.any (fun other => other.1 == entry.1) = false := by
      rw [List.map_append, List.map_cons] at honce
      rw [List.any_eq_false]
      intro other hother he
      have hdisjoint := List.disjoint_of_nodup_append honce (List.mem_map_of_mem hother)
      exact hdisjoint (by simpa using .inl (beq_iff_eq.mp he))
    have hrest : scanFields spec strangers (rest.map fun field => (some field.1, field.2))
        (seen ++ [entry]) = .ok (seen ++ [entry] ++ rest) :=
      ih (fun other hother => hholds other (List.mem_cons_of_mem entry hother))
        (by simpa using honce)
    simp only [List.map_cons, scanFields, hfind, hnew, hcheck, hrest]
    simp

-- A structure that is written with each of its fields is read with just these.
theorem fields_record (hspec : (spec.map Field.key).Nodup)
    (h : List.Forall₂ Field.Holds spec fields) :
    Record.fields spec strangers (.record fields) = .ok fields := by
  have hkeys : spec.map Field.key = fields.map Prod.fst := by
    clear hspec
    induction h with
    | nil => rfl
    | cons hfirst _ ih => rw [List.map_cons, List.map_cons, hfirst.key, ih]
  have hholds : ∀ entry ∈ fields, ∃ field ∈ spec, field.Holds entry := by
    clear hspec hkeys
    induction h with
    | nil => simp
    | @cons field entry spec fields hfirst _ ih =>
      refine List.forall_mem_cons.mpr ⟨⟨field, List.mem_cons_self, hfirst⟩, fun other hother => ?_⟩
      obtain ⟨own, hown, hholds⟩ := ih other hother
      exact ⟨own, List.mem_cons_of_mem field hown, hholds⟩
  refine scanFields_of_holds hspec hholds ?_
  rw [List.nil_append, ← hkeys]
  exact hspec

theorem required_of_lookup {j : Json} (hlookup : lookup seen key = some j) (h : read j = .ok a) :
    required seen key read = .ok a := by
  rw [required, hlookup]
  exact h

theorem optional_of_lookup {j : Json} {a : Option α} (hlookup : lookup seen key = some j)
    (h : readOption read j = .ok a) : optional seen key read = .ok a := by
  rw [optional, hlookup]
  exact h

end Record

end Foreman.Json
