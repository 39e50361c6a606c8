import Foreman.Text.Digit

namespace Foreman.Text

inductive IntegerFault where
  | empty
  | badDigit
  | tooLarge
  deriving DecidableEq, Repr, Inhabited

def IntegerFault.message : IntegerFault → String
  | .empty => "cannot parse integer from empty string"
  | .badDigit => "invalid digit found in string"
  | .tooLarge => "number too large to fit in target type"

-- The number written by digits behind `acc`. It may not exceed `bound` on the way, so that
-- what comes first in the text is found fault with first.
def readDigits (bound acc : Nat) : List Char → Except IntegerFault Nat
  | [] => .ok acc
  | c :: rest => match digit? c with
    | none => .error .badDigit
    | some d =>
      if bound < acc * 10 + d then .error .tooLarge else readDigits bound (acc * 10 + d) rest

def readNat (bound : Nat) (s : String) : Except IntegerFault Nat :=
  match s.toList with
  | [] => .error .empty
  | ['+'] => .error .badDigit
  | '+' :: rest => readDigits bound 0 rest
  | cs => readDigits bound 0 cs

end Foreman.Text
