import Foreman.Json.Value
import Foreman.Text.Digit

namespace Foreman

namespace Numeral

def exponentText : Option Int → List Char
  | none => []
  | some e => 'e' :: (if e < 0 then '-' else '+') :: Text.decimal e.natAbs

def fractionText : List Nat → List Char
  | [] => []
  | digits => '.' :: digits.map Text.digitChar

def print (n : Numeral) : List Char :=
  (if n.negative then ['-'] else []) ++ Text.decimal n.whole ++ fractionText n.fraction ++
    exponentText n.exponent

end Numeral

namespace Json

-- How one character stands between quotes. Control characters are written by
-- name where they have one, and by number where they have none.
def escape (c : Char) : List Char :=
  if c = '\x22' then ['\\', '\x22']
  else if c = '\\' then ['\\', '\\']
  else if c = '\x08' then ['\\', 'b']
  else if c = '\x0c' then ['\\', 'f']
  else if c = '\n' then ['\\', 'n']
  else if c = '\x0d' then ['\\', 'r']
  else if c = '\t' then ['\\', 't']
  else if c.toNat < 32 then ['\\', 'u', '0', '0', Text.digitChar (c.toNat / 16),
    Text.digitChar (c.toNat % 16)]
  else [c]

def quote (s : String) : List Char :=
  '\x22' :: s.toList.flatMap escape ++ ['\x22']

def quote? : Option String → List Char
  | none => "null".toList
  | some s => quote s

mutual

def print : Json → List Char
  | null => "null".toList
  | bool true => "true".toList
  | bool false => "false".toList
  | number n => n.print
  | text s => quote? s
  | array items => '[' :: printItems items ++ [']']
  | object fields => '\x7b' :: printFields fields ++ ['\x7d']

def printItems : List Json → List Char
  | [] => []
  | [item] => print item
  | item :: rest => print item ++ ',' :: printItems rest

def printFields : List (Option String × Json) → List Char
  | [] => []
  | [(key, value)] => quote? key ++ ':' :: print value
  | (key, value) :: rest => quote? key ++ ':' :: print value ++ ',' :: printFields rest

end

def compact (j : Json) : String := String.ofList j.print

end Json

end Foreman
