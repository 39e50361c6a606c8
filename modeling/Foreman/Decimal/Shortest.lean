import Foreman.Decimal.Binary
import Foreman.Json.Value
import Foreman.Text.Digit

namespace Foreman.Decimal

-- A real number in the middle of the others that round to it. All three are given as
-- multiples of one small unit, which is `unit` in the numerator or in the denominator.
-- `closed` tells whether the ends themselves round to the middle.
structure Window where
  low : Nat
  middle : Nat
  high : Nat
  unit : Nat
  closed : Bool
  deriving DecidableEq, Repr, Inhabited

namespace Window

-- Everything is counted in quarters of the last bit, over the denominator `unit`.
-- Below a power of two the numbers are twice as close.
def ofMagnitude (bits : Nat) : Window :=
  let (m, q) := split bits
  let below := if m = twos 52 ∧ -1074 < q then 1 else 2
  let up := twos q.toNat
  ⟨(4 * m - below) * up, 4 * m * up, (4 * m + 2) * up, 4 * twos (-q).toNat, m % 2 == 0⟩

def admits (w : Window) (n : Nat) (exponent : Int) : Bool :=
  let here := n * tens exponent.toNat * w.unit
  let scale := tens (-exponent).toNat
  if w.closed then w.low * scale ≤ here && here ≤ w.high * scale
  else w.low * scale < here && here < w.high * scale

def floorAt (w : Window) (exponent : Int) : Nat :=
  w.middle * tens (-exponent).toNat / (w.unit * tens exponent.toNat)

-- The upper one of two neighbours is nearer to the middle than the lower one is, or is
-- as near and even.
def prefersUpper (w : Window) (n : Nat) (exponent : Int) : Bool :=
  let scale := tens (-exponent).toNat
  let twice := (2 * n + 1) * tens exponent.toNat * w.unit
  twice < 2 * w.middle * scale || (twice == 2 * w.middle * scale && n % 2 == 1)

def candidate (w : Window) (exponent : Int) : Option Nat :=
  let n := w.floorAt exponent
  let lower := w.admits n exponent
  let upper := w.admits (n + 1) exponent
  if lower && upper then some (if w.prefersUpper n exponent then n + 1 else n)
  else if lower then some n
  else if upper then some (n + 1)
  else none

-- The first power of ten from `exponent` downwards with a multiple in the window. Zero does
-- not count: it is in no window.
def search (w : Window) : Nat → Int → Nat × Int
  | 0, exponent => (w.floorAt exponent, exponent)
  | fuel + 1, exponent => match w.candidate exponent with
    | some n => (n, exponent)
    | none => search w fuel (exponent - 1)

end Window

def magnitude (num den : Nat) : Int :=
  ((Text.toDigits 10 num).length : Int) - (Text.toDigits 10 den).length + 1

def stripZeros (fuel : Nat) (n : Nat) (exponent : Int) : Nat × Int :=
  match fuel with
  | 0 => (n, exponent)
  | fuel + 1 =>
    if n ≠ 0 ∧ n % 10 = 0 then stripZeros fuel (n / 10) (exponent + 1) else (n, exponent)

-- The shortest decimal that reads back as a positive magnitude: a whole number that does
-- not end in zero, times a power of ten. Seventeen digits always suffice.
def shortest (bits : Nat) : Nat × Int :=
  let w := Window.ofMagnitude bits
  let (n, exponent) := w.search 20 (magnitude w.middle w.unit)
  stripZeros 20 n exponent

def zeros (n : Nat) : List Nat := List.replicate n 0

-- Numbers from 0.00001 up to sixteen digits before the point are written without an
-- exponent, and all of them with a point. Others have one digit before the point,
-- and no point if there is nothing behind it.
def numeralOf (negative : Bool) (n : Nat) (exponent : Int) : Numeral :=
  let digits := Text.toDigits 10 n
  let first := exponent + digits.length - 1
  if first < -5 ∨ 15 < first then
    ⟨negative, digits.headD 0, digits.tail, some first⟩
  else if 0 ≤ exponent then
    ⟨negative, n * tens exponent.toNat, [0], none⟩
  else if 0 ≤ first then
    let count := first.toNat + 1
    ⟨negative, Text.ofDigits 10 (digits.take count), digits.drop count, none⟩
  else ⟨negative, 0, zeros (-first - 1).toNat ++ digits, none⟩

def shortestNumeral (x : Float) : Numeral :=
  let bits := x.toBits.toNat
  let negative : Bool := signBit ≤ bits
  let magnitude := bits % signBit
  if magnitude = 0 then ⟨negative, 0, [0], none⟩
  else
    let (n, exponent) := shortest magnitude
    numeralOf negative n exponent

end Foreman.Decimal
