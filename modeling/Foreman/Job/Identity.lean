import Foreman.Text.Digit

namespace Foreman

-- A job's name: 128 bits drawn afresh when the job is created.
structure JobId where
  code : BitVec 128
  deriving DecidableEq, Repr, Inhabited

namespace JobId

def hexDigits : Nat → Nat → List Char
  | 0, _ => []
  | count + 1, n => hexDigits count (n / 16) ++ [Text.digitChar (n % 16)]

def readHex (acc : Nat) : List Char → Option Nat
  | [] => some acc
  | c :: rest => match Text.hexDigit? c with
    | some d => readHex (acc * 16 + d) rest
    | none => none

-- The 32 digits fall into groups of 8, 4, 4, 4 and 12, with a hyphen between groups.
def hyphenate (digits : List Char) : List Char :=
  digits.take 8 ++ '-' :: (digits.drop 8).take 4 ++ '-' :: (digits.drop 12).take 4 ++
    '-' :: (digits.drop 16).take 4 ++ '-' :: digits.drop 20

def unhyphenate? (cs : List Char) : Option (List Char) :=
  let digits := cs.take 8 ++ (cs.drop 9).take 4 ++ (cs.drop 14).take 4 ++
    (cs.drop 19).take 4 ++ cs.drop 24
  if cs.length = 36 ∧ cs = hyphenate digits then some digits else none

def text (id : JobId) : String :=
  String.ofList (hyphenate (hexDigits 32 id.code.toNat))

def ofDigits? (digits : List Char) : Option JobId :=
  if digits.length = 32 then (readHex 0 digits).map (fun n => ⟨BitVec.ofNat 128 n⟩) else none

-- A name is read in four forms: 32 digits, the hyphenated form, and the
-- hyphenated form in braces or behind `urn:uuid:`. Case never matters.
def ofText? (s : String) : Option JobId :=
  let cs := s.toList
  if cs.length = 32 then ofDigits? cs
  else if cs.length = 36 then (unhyphenate? cs).bind ofDigits?
  else if cs.length = 38 ∧ cs.head? = some '\x7b' ∧ cs.getLast? = some '\x7d' then
    (unhyphenate? ((cs.drop 1).take 36)).bind ofDigits?
  else if cs.length = 45 ∧ (cs.take 9).map Char.toLower = "urn:uuid:".toList then
    (unhyphenate? (cs.drop 9)).bind ofDigits?
  else none

end JobId

end Foreman
