namespace Foreman

-- A number as JSON writes it: sign, whole part, digits behind the point, exponent.
-- No digits behind the point means that there is no point.
structure Numeral where
  negative : Bool
  whole : Nat
  fraction : List Nat
  exponent : Option Int
  deriving DecidableEq, Repr, Inhabited

namespace Numeral

def ofNat (n : Nat) : Numeral := ⟨false, n, [], none⟩

def ofInt (i : Int) : Numeral := ⟨i < 0, i.natAbs, [], none⟩

def isIntegral (n : Numeral) : Bool := n.fraction.isEmpty && n.exponent.isNone

-- The integer an integral numeral stands for. A negative zero stands for none.
def toInt? (n : Numeral) : Option Int :=
  if n.isIntegral ∧ ¬ (n.negative ∧ n.whole = 0) then
    some (if n.negative then - (n.whole : Int) else n.whole)
  else none

theorem toInt?_ofNat (n : Nat) : (ofNat n).toInt? = some (n : Int) := by
  simp [ofNat, toInt?, isIntegral]

theorem toInt?_ofInt (i : Int) : (ofInt i).toInt? = some i := by
  have hform : (ofInt i).isIntegral = true := rfl
  have hzero : ¬ ((ofInt i).negative = true ∧ (ofInt i).whole = 0) := by
    simp only [ofInt, decide_eq_true_eq]
    omega
  have hvalue : (if (ofInt i).negative = true then - ((ofInt i).whole : Int)
      else (ofInt i).whole) = i := by
    simp only [ofInt, decide_eq_true_eq]
    split <;> omega
  unfold toInt?
  rw [if_pos ⟨hform, hzero⟩, hvalue]

end Numeral

-- A JSON text as a tree. Fields stand in the order of the text, and a repeated key
-- stands as often as it was written. A text or key is missing where its escapes name
-- half of a surrogate pair, which is JSON but stands for no characters.
inductive Json where
  | null
  | bool (b : Bool)
  | number (n : Numeral)
  | text (s : Option String)
  | array (items : List Json)
  | object (fields : List (Option String × Json))
  deriving Inhabited, Repr

namespace Json

def ofNat (n : Nat) : Json := number (Numeral.ofNat n)

def ofInt (i : Int) : Json := number (Numeral.ofInt i)

def ofString (s : String) : Json := text (some s)

def ofOption (f : α → Json) : Option α → Json
  | none => null
  | some a => f a

def record (fields : List (String × Json)) : Json :=
  object (fields.map (fun field => (some field.1, field.2)))

def field? (key : String) : Json → Option Json
  | object fields => (fields.reverse.find? (fun field => field.1 == some key)).map Prod.snd
  | _ => none

end Json

end Foreman
