import Foreman.Decimal.Literal
import Foreman.Decimal.Power
import Foreman.Json.Value

namespace Foreman

inductive Misfit where
  | wrongType
  | badValue
  | missing (field : String)
  | repeated (field : String)
  | unknownVariant (name : String)
  | other
  deriving DecidableEq, Repr, Inhabited

def Misfit.message : Misfit → String
  | .wrongType => "invalid type"
  | .badValue => "invalid value"
  | .missing field => "missing field `" ++ field ++ "`"
  | .repeated field => "duplicate field `" ++ field ++ "`"
  | .unknownVariant name => "unknown variant `" ++ name ++ "`"
  | .other => "other"

namespace Json

def readString : Json → Except Misfit String
  | text (some s) => .ok s
  | text none => .error .other
  | _ => .error .wrongType

def readBool : Json → Except Misfit Bool
  | bool b => .ok b
  | _ => .error .wrongType

-- Whole numbers are held in 64 bits, with a sign or without. Any others count as fractional.
def lowest : Int := -9223372036854775808

def highest : Int := 18446744073709551615

def whole? (n : Numeral) : Option Int :=
  n.toInt?.bind (fun i => if lowest ≤ i ∧ i ≤ highest then some i else none)

def readInt (low high : Int) : Json → Except Misfit Int
  | number n => match whole? n with
    | some i => if low ≤ i ∧ i ≤ high then .ok i else .error .badValue
    | none => .error .wrongType
  | _ => .error .wrongType

def readNat (bits : Nat) (j : Json) : Except Misfit Nat :=
  (readInt 0 ((twos bits - 1 : Nat) : Int) j).map Int.toNat

-- A natural number of 128 bits is taken as it is written, and anything else is out of place.
def readWide : Json → Except Misfit Nat
  | number n => match n.toInt? with
    | some i => if 0 ≤ i ∧ i.toNat < twos 128 then .ok i.toNat else .error .other
    | none => .error .other
  | _ => .error .other

def readFloat : Json → Except Misfit Float
  | number n => match whole? n with
    | some i => .ok (Decimal.nearest (i < 0) i.natAbs 0)
    | none => match Decimal.ofNumeral? n with
      | some x => .ok x
      | none => .error .other
  | _ => .error .wrongType

def readOption (read : Json → Except Misfit α) : Json → Except Misfit (Option α)
  | null => .ok none
  | j => (read j).map some

def readUnit : Json → Except Misfit Unit
  | null => .ok ()
  | _ => .error .wrongType

def readVariant (ofText? : String → Option α) : Json → Except Misfit α
  | text (some s) => match ofText? s with
    | some a => .ok a
    | none => .error (.unknownVariant s)
  | object ((some key, j) :: rest) => match ofText? key with
    | none => .error (.unknownVariant key)
    | some a => match readUnit j with
      | .error misfit => .error misfit
      | .ok () => if rest.isEmpty then .ok a else .error .other
  | _ => .error .other

theorem whole?_ofInt {i : Int} (hlow : lowest ≤ i) (hhigh : i ≤ highest) :
    whole? (Numeral.ofInt i) = some i := by
  simp [whole?, Numeral.toInt?_ofInt, hlow, hhigh]

theorem whole?_ofNat {n : Nat} (hn : n < twos 64) : whole? (Numeral.ofNat n) = some (n : Int) := by
  have hlow : lowest ≤ (n : Int) := by
    unfold lowest
    omega
  have hhigh : (n : Int) ≤ highest := by
    have hbound : twos 64 = 18446744073709551616 := rfl
    unfold highest
    omega
  have hform : Numeral.ofNat n = Numeral.ofInt n := by
    rw [Numeral.ofInt, decide_eq_false (by omega), Int.natAbs_natCast]
    rfl
  rw [hform, whole?_ofInt hlow hhigh]

theorem readNat_ofNat {bits n : Nat} (hn : n < twos bits) (hbits : bits ≤ 64) :
    readNat bits (ofNat n) = .ok n := by
  have h : (0 : Int) ≤ n ∧ (n : Int) ≤ ((twos bits - 1 : Nat) : Int) := by omega
  have hwhole := whole?_ofNat (Nat.lt_of_lt_of_le hn (twos_le_twos hbits))
  simp only [readNat, readInt, ofNat, hwhole, h, and_self, if_true]
  rfl

theorem readWide_ofNat {n : Nat} (hn : n < twos 128) : readWide (ofNat n) = .ok n := by
  simp only [readWide, ofNat, Numeral.toInt?_ofNat, Int.toNat_natCast, Int.natCast_nonneg, hn,
    and_self, if_true]

end Json

end Foreman
