import Foreman.Json.Shape

namespace Foreman

namespace Json.Record

structure Field where
  key : String
  check : Json → Except Misfit Unit

def Field.of (key : String) (read : Json → Except Misfit α) : Field :=
  ⟨key, fun j => (read j).map (fun _ => ())⟩

inductive Strangers where
  | ignored
  | refused
  deriving DecidableEq, Repr, Inhabited

-- The fields of an object in the order of the text. The first that is out of place is the
-- one reported: one that is there already, or one with a value that does not fit.
def scanFields (spec : List Field) (strangers : Strangers) :
    List (Option String × Json) → List (String × Json) → Except Misfit (List (String × Json))
  | [], seen => .ok seen
  | (none, _) :: _, _ => .error .other
  | (some key, j) :: rest, seen => match spec.find? (fun field => field.key == key) with
    | none => match strangers with
      | .ignored => scanFields spec strangers rest seen
      | .refused => .error .other
    | some field =>
      if seen.any (fun entry => entry.1 == key) then .error (.repeated key)
      else match field.check j with
        | .error misfit => .error misfit
        | .ok () => scanFields spec strangers rest (seen ++ [(key, j)])

def scanItems : List Field → List Json → Except Misfit (List (String × Json))
  | _, [] => .ok []
  | [], _ :: _ => .error .other
  | field :: spec, j :: rest => match field.check j with
    | .error misfit => .error misfit
    | .ok () => (scanItems spec rest).map ((field.key, j) :: ·)

def fields (spec : List Field) (strangers : Strangers) :
    Json → Except Misfit (List (String × Json))
  | object entries => scanFields spec strangers entries []
  | array items => match scanItems spec items with
    | .error misfit => .error misfit
    | .ok seen => if seen.length < spec.length then .error .other else .ok seen
  | _ => .error .wrongType

def someFields (spec : List Field) : Json → Except Misfit (List (String × Json))
  | object entries => scanFields spec .ignored entries []
  | array items => scanItems spec items
  | _ => .error .wrongType

def lookup (seen : List (String × Json)) (key : String) : Option Json :=
  (seen.find? (fun entry => entry.1 == key)).map Prod.snd

def required (seen : List (String × Json)) (key : String) (read : Json → Except Misfit α) :
    Except Misfit α :=
  match lookup seen key with
  | some j => read j
  | none => .error (.missing key)

def optional (seen : List (String × Json)) (key : String) (read : Json → Except Misfit α) :
    Except Misfit (Option α) :=
  match lookup seen key with
  | some j => readOption read j
  | none => .ok none

def defaulted (seen : List (String × Json)) (key : String) (read : Json → Except Misfit α)
    (standard : α) : Except Misfit α :=
  match lookup seen key with
  | some j => read j
  | none => .ok standard

end Json.Record

end Foreman
