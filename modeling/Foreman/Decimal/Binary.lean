import Foreman.Decimal.Power
import Foreman.Text.Digit

namespace Foreman.Decimal

-- Binary numbers of 64 bits: the bits of a magnitude, without the sign.
-- A finite magnitude is a significand times a power of two.
def infinityBits : Nat := 0x7ff0000000000000

def nanBits : Nat := 0x7ff8000000000000

def signBit : Nat := 0x8000000000000000

def roundEven (num den : Nat) : Nat :=
  let q := num / den
  let r := num % den
  if 2 * r < den then q
  else if den < 2 * r then q + 1
  else q + q % 2

-- The power of two by which a quotient has to be divided to get 53 bits before the point.
-- It is never below -1074, the smallest there is.
def scaleOf (num den : Nat) : Int :=
  let guess : Int := (num.log2 : Int) - den.log2 - 52
  let fits : Bool :=
    if 0 ≤ guess then den * twos (guess.toNat + 52) ≤ num
    else den * twos 52 ≤ num * twos (-guess).toNat
  max (if fits then guess else guess - 1) (-1074)

def nearestBits (num den : Nat) : Nat :=
  if num = 0 then 0
  else
    let scale := scaleOf num den
    let significand :=
      if 0 ≤ scale then roundEven num (den * twos scale.toNat)
      else roundEven (num * twos (-scale).toNat) den
    min ((scale + 1074).toNat * twos 52 + significand) infinityBits

-- Beyond these powers of ten every number of at most `digits` digits is zero or infinite.
def tenBits (n : Nat) (exponent : Int) : Nat :=
  let digits := (Text.toDigits 10 n).length
  if n = 0 then 0
  else if 400 < exponent + digits then infinityBits
  else if exponent + digits < -400 then 0
  else if 0 ≤ exponent then nearestBits (n * tens exponent.toNat) 1
  else nearestBits n (tens (-exponent).toNat)

def ofMagnitude (negative : Bool) (bits : Nat) : Float :=
  Float.ofBits (UInt64.ofNat (if negative then bits + signBit else bits))

def nearest (negative : Bool) (n : Nat) (exponent : Int) : Float :=
  ofMagnitude negative (tenBits n exponent)

def split (bits : Nat) : Nat × Int :=
  let biased : Nat := bits / twos 52
  if biased = 0 then (bits, -1074) else (bits % twos 52 + twos 52, (biased : Int) - 1075)

end Foreman.Decimal
