namespace Foreman

-- Where a path sets out from. Two slashes in front are a root of their own;
-- one slash, and three or more, are the ordinary one.
inductive Start where
  | here
  | root
  | doubleRoot
  deriving DecidableEq, Repr, Inhabited

inductive Path.Ending where
  | step
  | slash
  | dot
  deriving DecidableEq, Repr, Inhabited

-- A path as someone wrote it, without the parts that stand for no step: empty ones
-- and single dots. A step back is a step like any other. The empty text leads nowhere.
inductive Path where
  | nowhere
  | along (start : Start) (steps : List String) (ending : Path.Ending)
  deriving DecidableEq, Repr, Inhabited

namespace Path

def pieces : List Char → List (List Char)
  | [] => [[]]
  | '/' :: rest => [] :: pieces rest
  | c :: rest => match pieces rest with
    | [] => [[c]]
    | piece :: others => (c :: piece) :: others

def isStep (piece : List Char) : Bool := piece != [] && piece != ['.']

def stepsOf (cs : List Char) : List String := ((pieces cs).filter isStep).map String.ofList

def startOf : List Char → Start
  | '/' :: '/' :: '/' :: _ => .root
  | '/' :: '/' :: _ => .doubleRoot
  | '/' :: _ => .root
  | _ => .here

def endingOf (cs : List Char) : Ending :=
  match (pieces cs).getLast? with
  | some [] => .slash
  | some ['.'] => .dot
  | _ => .step

def ofText (s : String) : Path :=
  match s.toList with
  | [] => nowhere
  | cs => along (startOf cs) (stepsOf cs) (endingOf cs)

def startText : Start → String
  | .here => ""
  | .root => "/"
  | .doubleRoot => "//"

def text : Path → String
  | nowhere => ""
  | along start steps ending =>
    startText start ++ "/".intercalate steps ++
      (if ending = .slash ∧ steps ≠ [] then "/" else "")

def normal (home : List String) : Path → Option (List String)
  | nowhere => none
  | along .here steps _ => some (home ++ steps)
  | along _ steps _ => some steps

def absolute (home : List String) : Path → Path
  | along .here steps ending => along .root (home ++ steps) ending
  | p => p

def child (p : Path) (name : String) : Path :=
  match p with
  | nowhere => along .here [name] .step
  | along start steps _ => along start (steps ++ [name]) .step

-- The steps to take on the way. Behind a slash or a dot at the end there is one more, which
-- stays where it is and so needs a directory to stay in.
def route (steps : List String) : Ending → List String
  | .step => steps
  | .slash | .dot => steps ++ ["."]

theorem normal_absolute (home : List String) (p : Path) :
    (p.absolute home).normal home = p.normal home := by
  cases p with
  | nowhere => rfl
  | along start steps ending => cases start <;> rfl

end Path

end Foreman
