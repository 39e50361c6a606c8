import Foreman.Text.Blank
import Foreman.Text.Word

namespace Foreman

abbrev Environment := List (String × String)

namespace Environment

def get? (env : Environment) (name : String) : Option String :=
  (env.find? (fun entry => entry.1 == name)).map Prod.snd

def set (env : Environment) (name value : String) : Environment :=
  env.filter (fun entry => entry.1 != name) ++ [(name, value)]

end Environment

-- Files of lines `KEY=value`. A quoted value may run over several lines, and a dollar sign
-- in front of a name stands for the value of a variable.
namespace DotEnv

inductive Mode where
  | plain
  | blank
  | comment
  | escaped
  | strong
  | strongEscaped
  | weak
  | weakEscaped
  deriving DecidableEq, Repr, Inhabited

namespace Mode

def opening (c : Char) : Mode :=
  if c = '\\' then escaped
  else if c = '\x22' then weak
  else if c = '\x27' then strong
  else plain

-- One character further. A number sign right behind a blank starts a comment, if that
-- blank is the only one.
def after (mode : Mode) (c : Char) : Mode :=
  match mode with
  | plain => if Text.isBlank c && c != '\n' && c != '\x0d' then blank else opening c
  | blank => if c = '#' then comment else opening c
  | comment => comment
  | escaped => plain
  | strong => if c = '\\' then strongEscaped else if c = '\x27' then plain else strong
  | strongEscaped => strong
  | weak => if c = '\\' then weakEscaped else if c = '\x22' then plain else weak
  | weakEscaped => weak

end Mode

def scan (mode : Mode) : List Char → List Char × Mode
  | [] => ([], mode)
  | c :: rest =>
    if mode.after c = .comment then ([], .comment)
    else
      let (kept, last) := scan (mode.after c) rest
      (c :: kept, last)

def lines : List Char → List (List Char)
  | [] => []
  | '\n' :: rest => ['\n'] :: lines rest
  | c :: rest => match lines rest with
    | [] => [[c]]
    | line :: others => (c :: line) :: others

def withoutLineEnd (cs : List Char) : List Char :=
  match cs.reverse with
  | '\n' :: '\x0d' :: rest => rest.reverse
  | '\n' :: rest => rest.reverse
  | _ => cs

def isRemark (cs : List Char) : Bool := (Text.trimStart cs).head? == some '#'

-- Lines that belong together, put together. A text that ends in the middle of something is
-- out of order there, which is told by a missing last line.
def gather (acc : List Char) (mode : Mode) : List (List Char) → List (Option (List Char))
  | [] => if mode = .plain then [] else [none]
  | line :: rest =>
    if isRemark (acc ++ line) then some [] :: gather [] .plain rest
    else match scan mode line with
      | (kept, .comment) => some (acc ++ kept) :: gather [] .plain rest
      | (_, .plain) => some (withoutLineEnd (acc ++ line)) :: gather [] .plain rest
      | (_, mode) => gather (acc ++ line) mode rest

inductive Place where
  | bare
  | weak
  | strong
  | escaped (isWeak : Bool)
  | name (isWeak : Bool) (cs : List Char)
  | braced (isWeak : Bool) (cs : List Char)
  | ending
  | over
  deriving DecidableEq, Repr, Inhabited

def Place.around (isWeak : Bool) : Place := if isWeak then weak else bare

def substitute (env : Environment) (name : List Char) : List Char :=
  ((env.get? (String.ofList name)).getD "").toList

def unescape? (c : Char) : Option Char :=
  if c = '\\' || c = '\x27' || c = '\x22' || c = '$' || c = ' ' then some c
  else if c = 'n' then some '\n'
  else none

def opening (isWeak : Bool) (out : List Char) (c : Char) : List Char × Place :=
  if c = '$' then (out, .name isWeak [])
  else if isWeak then
    if c = '\x22' then (out, .bare)
    else if c = '\\' then (out, .escaped true)
    else (out ++ [c], .weak)
  else if c = '\x27' then (out, .strong)
  else if c = '\x22' then (out, .weak)
  else if c = '\\' then (out, .escaped false)
  else if c = ' ' || c = '\t' then (out, .ending)
  else (out ++ [c], .bare)

-- One more character of a value. The character that ends a name is always taken as it is,
-- unless it starts another name.
def step (env : Environment) (out : List Char) (place : Place) (c : Char) :
    Option (List Char × Place) :=
  match place with
  | .bare => some (opening false out c)
  | .weak => some (opening true out c)
  | .strong => some (if c = '\x27' then (out, .bare) else (out ++ [c], .strong))
  | .escaped isWeak => (unescape? c).map (fun c => (out ++ [c], .around isWeak))
  | .name isWeak cs =>
    if Text.isWord c then some (out, .name isWeak (cs ++ [c]))
    else if c = '\x7b' ∧ cs = [] then some (out, .braced isWeak [])
    else if c = '$' then some (out ++ substitute env cs, .name isWeak [])
    else some (out ++ substitute env cs ++ [c], .around isWeak)
  | .braced isWeak cs =>
    if c = '\x7d' then some (out ++ substitute env cs, .around isWeak)
    else some (out, .braced isWeak (cs ++ [c]))
  | .ending =>
    if c = ' ' || c = '\t' then some (out, .ending) else if c = '#' then some (out, .over) else none
  | .over => some (out, .over)

def finish (env : Environment) (out : List Char) : Place → Option (List Char)
  | .bare | .ending | .over | .escaped false => some out
  | .name false cs => some (out ++ substitute env cs)
  | .weak | .strong | .escaped true | .name true _ | .braced _ _ => none

def valueFrom (env : Environment) (out : List Char) (place : Place) :
    List Char → Option (List Char)
  | [] => finish env out place
  | c :: rest => match step env out place c with
    | none => none
    | some (out, place) => valueFrom env out place rest

def isKeyStart (c : Char) : Bool := c.isAlpha || c == '_'

def isKeyPart (c : Char) : Bool := c.isAlphanum || c == '_' || c == '.'

def key : List Char → Option (List Char × List Char)
  | [] => none
  | c :: rest =>
    if isKeyStart c then
      some (c :: rest.takeWhile isKeyPart, Text.trimStart (rest.dropWhile isKeyPart))
    else none

-- A key and what stands behind its equals sign. The word `export` may stand in front of a
-- key, and may be a key itself.
def keyAndRest (cs : List Char) : Option (List Char × List Char) :=
  match key cs with
  | none => none
  | some (name, '=' :: rest) => some (name, rest)
  | some (name, rest) =>
    if name = "export".toList then match key rest with
      | some (name, '=' :: rest) => some (name, rest)
      | _ => none
    else none

def assignment (env : Environment) (line : List Char) : Option (Option (String × String)) :=
  match Text.trimChars line with
  | [] => some none
  | '#' :: _ => some none
  | cs => match keyAndRest cs with
    | none => none
    | some (name, rest) => match Text.trimStart rest with
      | [] => some (some (String.ofList name, ""))
      | '#' :: _ => some (some (String.ofList name, ""))
      | cs => (valueFrom env [] .bare cs).map
          (fun value => some (String.ofList name, String.ofList value))

-- Lines take effect one after the other, up to the first that is out of order. A variable
-- that is there already keeps its value.
def applyLines (env : Environment) : List (Option (List Char)) → Environment
  | [] => env
  | none :: _ => env
  | some line :: rest => match assignment env line with
    | none => env
    | some none => applyLines env rest
    | some (some (name, value)) =>
      applyLines (if (env.get? name).isSome then env else env.set name value) rest

def withoutMark : List Char → List Char
  | '\ufeff' :: rest => rest
  | cs => cs

def load (env : Environment) (file : String) : Environment :=
  applyLines env (gather [] .plain (lines (withoutMark file.toList)))

end DotEnv

end Foreman
