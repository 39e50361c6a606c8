import Foreman.Decimal.Shortest
import Foreman.Json.Reader
import Foreman.Json.Shape

namespace Foreman

inductive TextFault where
  | malformed
  | misfit (misfit : Misfit)
  deriving DecidableEq, Repr, Inhabited

namespace Json

-- A field goes to its place among fields with keys in rising order. The last value of a
-- repeated key is the one that counts.
def insertField (key : String) (j : Json) : List (String × Json) → List (String × Json)
  | [] => [(key, j)]
  | (other, value) :: rest =>
    if key < other then (key, j) :: (other, value) :: rest
    else if key = other then (key, j) :: rest
    else (other, value) :: insertField key j rest

def canonicalNumber (n : Numeral) : Option Numeral :=
  if (whole? n).isSome then some n else (Decimal.ofNumeral? n).map Decimal.shortestNumeral

mutual

-- A value of which nothing is known, with at most `depth` values around any other, the keys
-- of its objects in order and each number in a form of its own.
def canonical (depth : Nat) : Json → Option Json
  | null => some null
  | bool b => some (bool b)
  | number n => (canonicalNumber n).map number
  | text none => none
  | text (some s) => some (text (some s))
  | array items => match depth with
    | 0 => none
    | depth + 1 => (canonicalItems depth items).map array
  | object fields => match depth with
    | 0 => none
    | depth + 1 => (canonicalFields depth fields []).map record

def canonicalItems (depth : Nat) : List Json → Option (List Json)
  | [] => some []
  | item :: rest => match canonical depth item with
    | none => none
    | some item => (canonicalItems depth rest).map (item :: ·)

def canonicalFields (depth : Nat) :
    List (Option String × Json) → List (String × Json) → Option (List (String × Json))
  | [], acc => some acc
  | (none, _) :: _, _ => none
  | (some key, j) :: rest, acc => match canonical depth j with
    | none => none
    | some j => canonicalFields depth rest (insertField key j acc)

end

def maxDepth : Nat := 127

def isSound (j : Json) : Bool := (canonical maxDepth j).isSome

-- What a text holds. A value that is not sound can still be read where what is wrong with it
-- does not matter. Where it cannot be read, the text as a whole is at fault.
def readText (read : Json → Except Misfit α) (s : String) : Except TextFault α :=
  match ofText? s with
  | none => .error .malformed
  | some j => match read j with
    | .ok a => .ok a
    | .error misfit => .error (if j.isSound then .misfit misfit else .malformed)

def readParams (depth : Nat) : Json → Except Misfit (List (String × Json))
  | object fields => match canonicalFields depth fields [] with
    | some fields => .ok fields
    | none => .error .other
  | _ => .error .wrongType

end Json

end Foreman
