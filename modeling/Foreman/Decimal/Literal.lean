import Foreman.Decimal.Binary
import Foreman.Json.Value
import Foreman.Text.Digit

namespace Foreman.Decimal

-- The number a literal stands for, found with one rounding for its digits and one for its
-- power of ten. That may miss the nearest number by a little, and is what readers of JSON
-- settle for who want to be fast.

-- Digits are taken into account as long as they fit into 64 bits.
def capacity : Nat := twos 64 - 1

def maxExponent : Nat := twos 31 - 1

def absorb (significand : Nat) : List Nat → Nat × List Nat
  | [] => (significand, [])
  | d :: rest =>
    if capacity < significand * 10 + d then (significand, d :: rest)
    else absorb (significand * 10 + d) rest

def tenPower (n : Nat) : Float := nearest false 1 n

-- A number is divided by the largest power of ten until the rest of the exponent is in range, or
-- until it is zero, which it is after a few times.
def scaleDown (f : Float) (n : Nat) : Float :=
  if n ≤ 308 then f / tenPower n
  else if f == 0.0 then f
  else scaleDown (f / tenPower 308) (n - 308)
  termination_by n

def scaled (significand : Nat) (exponent : Int) : Option Float :=
  let f := nearest false significand 0
  if exponent < 0 then some (scaleDown f exponent.natAbs)
  else if exponent ≤ 308 then
    let g := f * tenPower exponent.toNat
    if g.isInf then none else some g
  else if significand = 0 then some f
  else none

def withExponent (significand : Nat) (shift : Int) : Option Int → Option Float
  | none => scaled significand shift
  | some e =>
    if maxExponent < e.natAbs then
      if significand ≠ 0 ∧ 0 < e then none else some 0.0
    else scaled significand (shift + e)

def ofNumeral? (n : Numeral) : Option Float :=
  let (whole, skipped) := absorb 0 (Text.toDigits 10 n.whole)
  let (significand, ignored) := absorb whole n.fraction
  let shift : Int := skipped.length - (n.fraction.length - ignored.length : Nat)
  (withExponent significand shift n.exponent).map (fun f => if n.negative then -f else f)

end Foreman.Decimal
