import Foreman.Json.Value
import Foreman.Text.Digit

namespace Foreman.Json

namespace Reader

def isBlank (c : Char) : Bool := c == ' ' || c == '\n' || c == '\t' || c == '\x0d'

def skipBlank (cs : List Char) : List Char := cs.dropWhile isBlank

def whole : List Char → Option (Nat × List Char)
  | '0' :: rest => if (rest.head?.bind Text.digit?).isSome then none else some (0, rest)
  | cs => match Text.leadingDigits cs with
    | ([], _) => none
    | (ds, rest) => some (Text.ofDigits 10 ds, rest)

def fraction : List Char → Option (List Nat × List Char)
  | '.' :: cs => match Text.leadingDigits cs with
    | ([], _) => none
    | (ds, rest) => some (ds, rest)
  | cs => some ([], cs)

def exponentDigits (negative : Bool) (cs : List Char) : Option (Option Int × List Char) :=
  match Text.leadingDigits cs with
  | ([], _) => none
  | (ds, rest) =>
    some (some (if negative then - (Text.ofDigits 10 ds : Int) else Text.ofDigits 10 ds), rest)

def exponentSigned : List Char → Option (Option Int × List Char)
  | '-' :: cs => exponentDigits true cs
  | '+' :: cs => exponentDigits false cs
  | cs => exponentDigits false cs

def exponent : List Char → Option (Option Int × List Char)
  | 'e' :: cs => exponentSigned cs
  | 'E' :: cs => exponentSigned cs
  | cs => some (none, cs)

def sign : List Char → Bool × List Char
  | '-' :: cs => (true, cs)
  | cs => (false, cs)

def numeral (cs : List Char) : Option (Numeral × List Char) := do
  let (negative, cs) := sign cs
  let (w, cs) ← whole cs
  let (f, cs) ← fraction cs
  let (e, cs) ← exponent cs
  return (⟨negative, w, f, e⟩, cs)

def unit? (a b c d : Char) : Option Nat :=
  ([a, b, c, d].mapM Text.hexDigit?).map (Text.ofDigits 16)

def named? : Char → Option Char
  | '\x22' => some '\x22'
  | '\\' => some '\\'
  | '/' => some '/'
  | 'b' => some '\x08'
  | 'f' => some '\x0c'
  | 'n' => some '\n'
  | 'r' => some '\x0d'
  | 't' => some '\t'
  | _ => none

inductive Piece where
  | unit (n : Nat)
  | char (c : Char)
  deriving DecidableEq, Repr, Inhabited

def pieces : List Char → Option (List Piece × List Char)
  | [] => none
  | '\x22' :: rest => some ([], rest)
  | '\\' :: 'u' :: a :: b :: c :: d :: rest => do
    let n ← unit? a b c d
    let (ps, rest) ← pieces rest
    return (.unit n :: ps, rest)
  | '\\' :: c :: rest => do
    let c ← named? c
    let (ps, rest) ← pieces rest
    return (.char c :: ps, rest)
  | c :: rest => if c.toNat < 32 ∨ c = '\\' then none else do
    let (ps, rest) ← pieces rest
    return (.char c :: ps, rest)

-- The characters that pieces stand for. A high surrogate needs a low one behind it,
-- and a low one stands behind a high one only.
def assemble : List Piece → Option (List Char)
  | [] => some []
  | .char c :: rest => (assemble rest).map (c :: ·)
  | .unit n :: rest =>
    if 0xdc00 ≤ n ∧ n < 0xe000 then none
    else if 0xd800 ≤ n ∧ n < 0xdc00 then match rest with
      | .unit m :: rest => if 0xdc00 ≤ m ∧ m < 0xe000 then
          (assemble rest).map (Char.ofNat (0x10000 + (n - 0xd800) * 1024 + (m - 0xdc00)) :: ·)
        else none
      | _ => none
    else (assemble rest).map (Char.ofNat n :: ·)

def string (cs : List Char) : Option (Option String × List Char) :=
  (pieces cs).map (fun (ps, rest) => ((assemble ps).map String.ofList, rest))

def word (w : List Char) (j : Json) (cs : List Char) : Option (Json × List Char) :=
  if w.isPrefixOf cs then some (j, cs.drop w.length) else none

mutual

-- A value at the front of a text that starts with no blank, and what follows it.
-- The fuel bounds the number of values and separators read.
def value : Nat → List Char → Option (Json × List Char)
  | 0, _ => none
  | fuel + 1, cs => match cs with
    | '\x22' :: rest => (string rest).map (fun (s, rest) => (text s, rest))
    | '[' :: rest => match skipBlank rest with
      | ']' :: rest => some (array [], rest)
      | rest => (items fuel rest).map (fun (js, rest) => (array js, rest))
    | '\x7b' :: rest => match skipBlank rest with
      | '\x7d' :: rest => some (object [], rest)
      | rest => (fields fuel rest).map (fun (fs, rest) => (object fs, rest))
    | 'n' :: _ => word "null".toList null cs
    | 't' :: _ => word "true".toList (bool true) cs
    | 'f' :: _ => word "false".toList (bool false) cs
    | _ => (numeral cs).map (fun (n, rest) => (number n, rest))

def items : Nat → List Char → Option (List Json × List Char)
  | 0, _ => none
  | fuel + 1, cs => match value fuel cs with
    | none => none
    | some (j, rest) => match skipBlank rest with
      | ']' :: rest => some ([j], rest)
      | ',' :: rest => (items fuel (skipBlank rest)).map (fun (js, rest) => (j :: js, rest))
      | _ => none

def fields : Nat → List Char → Option (List (Option String × Json) × List Char)
  | 0, _ => none
  | fuel + 1, cs => match cs with
    | '\x22' :: rest => match string rest with
      | none => none
      | some (key, rest) => match skipBlank rest with
        | ':' :: rest => match value fuel (skipBlank rest) with
          | none => none
          | some (j, rest) => match skipBlank rest with
            | '\x7d' :: rest => some ([(key, j)], rest)
            | ',' :: rest =>
              (fields fuel (skipBlank rest)).map (fun (fs, rest) => ((key, j) :: fs, rest))
            | _ => none
        | _ => none
    | _ => none

end

def ofChars? (cs : List Char) : Option Json :=
  match value (2 * cs.length + 2) (skipBlank cs) with
  | some (j, rest) => if (skipBlank rest).isEmpty then some j else none
  | none => none

end Reader

def ofText? (s : String) : Option Json := Reader.ofChars? s.toList

end Foreman.Json
