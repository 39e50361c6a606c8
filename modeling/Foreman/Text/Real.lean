import Foreman.Decimal.Binary
import Foreman.Text.Digit

namespace Foreman.Text

inductive RealFault where
  | empty
  | malformed
  deriving DecidableEq, Repr, Inhabited

def RealFault.message : RealFault → String
  | .empty => "cannot parse float from empty string"
  | .malformed => "invalid float literal"

def signed : List Char → Bool × List Char
  | '-' :: rest => (true, rest)
  | '+' :: rest => (false, rest)
  | cs => (false, cs)

def exponent? : List Char → Option Int
  | [] => some 0
  | c :: rest =>
    if c.toLower = 'e' then
      let (negative, rest) := signed rest
      match leadingDigits rest with
      | ([], _) => none
      | (ds, []) => some (if negative then - (ofDigits 10 ds : Int) else ofDigits 10 ds)
      | _ => none
    else none

def fractionOf : List Char → List Nat × List Char
  | '.' :: rest => leadingDigits rest
  | cs => ([], cs)

def decimal? (negative : Bool) (cs : List Char) : Option Float :=
  let (whole, rest) := leadingDigits cs
  let (fraction, rest) := fractionOf rest
  if whole.isEmpty && fraction.isEmpty then none
  else (exponent? rest).map fun e =>
    Decimal.nearest negative (ofDigits 10 (whole ++ fraction)) (e - fraction.length)

def namedReal? (negative : Bool) (cs : List Char) : Option Float :=
  let name := String.ofList (cs.map Char.toLower)
  if name = "inf" ∨ name = "infinity" then
    some (Decimal.ofMagnitude negative Decimal.infinityBits)
  else if name = "nan" then some (Decimal.ofMagnitude negative Decimal.nanBits)
  else none

def readReal (s : String) : Except RealFault Float :=
  match s.toList with
  | [] => .error .empty
  | cs =>
    let (negative, rest) := signed cs
    match (decimal? negative rest).or (namedReal? negative rest) with
    | some x => .ok x
    | none => .error .malformed

end Foreman.Text
