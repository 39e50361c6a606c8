import Foreman.Engine.Blueprint

namespace Foreman.Engine

def Move.names? : Move → Option JobId
  | .create id _ _ | .submit id _ _ _ => some id
  | _ => none

def Move.ends? : Move → Option Nat
  | .endTask ticket _ => some ticket
  | _ => none

namespace State

-- Who hears the verdict of the gate in a move, and what it is.
def hears? (s : State) : Move → Option (Caller × Verdict)
  | .firstLook tag => match s.caller? tag with
    | some caller => match caller.phase with
      | .fresh => some (caller,
          (s.line.lookFirst s.now ⟨caller.tag, caller.job, s.now + caller.timeout⟩).2)
      | _ => none
    | none => none
  | .nextLook => match s.line.resume s.now with
    | some (call, _, verdict) => (s.caller? call.tag).map (fun caller => (caller, verdict))
    | none => none
  | _ => none

-- A caller who asked for no more than a slot keeps the one that the gate gives.
def lendsTo? (caller : Caller) : Verdict → Option JobId
  | .granted => match caller.aim with
    | .slot => some caller.job
    | .run => none
  | .refused | .waits | .panics => none

-- The job whose slot someone outside gets by a move: the one that is taken out of the queue by
-- hand, or the one of a caller who asked for its slot.
def lends? (s : State) : Move → Option JobId
  | .takeJob => s.takeJob.1
  | move => (s.hears? move).bind fun (caller, verdict) => lendsTo? caller verdict

-- A new job gets a name that no job in the ledger has. Names are drawn at random, and this is what
-- an engine counts on.
def NamesAfresh (s : State) (move : Move) : Prop :=
  ∀ id ∈ move.names?, s.ledger.contains id = false

instance (s : State) (move : Move) : Decidable (s.NamesAfresh move) :=
  inferInstanceAs (Decidable (∀ id ∈ move.names?, s.ledger.contains id = false))

end State

-- An engine together with the slots that are lent out: someone outside got them and has not
-- given them back.
structure Loans where
  state : State
  lent : List JobId

namespace Loans

def ofState (s : State) : Loans := ⟨s, []⟩

def make (l : Loans) (move : Move) : Loans where
  state := l.state.apply move
  lent := match move with
    | .returnSlot id => l.lent.erase id
    | move => l.lent ++ (l.state.lends? move).toList

def run (l : Loans) (moves : List Move) : Loans := moves.foldl make l

-- A slot is given back only by someone to whom it was lent.
def ReturnsOwn (l : Loans) : Move → Prop
  | .returnSlot id => id ∈ l.lent
  | _ => True

-- Every move of a run is allowed when it is made.
def Follows (allowed : Loans → Move → Prop) : Loans → List Move → Prop
  | _, [] => True
  | l, move :: moves => allowed l move ∧ Follows allowed (l.make move) moves

-- Nobody gives back what is not theirs.
def Honest (l : Loans) (moves : List Move) : Prop := Follows ReturnsOwn l moves

-- Nor does any new job take the name of another.
def Lawful (l : Loans) (moves : List Move) : Prop :=
  Follows (fun l move => l.ReturnsOwn move ∧ l.state.NamesAfresh move) l moves

instance decidableReturnsOwn (l : Loans) : (move : Move) → Decidable (l.ReturnsOwn move)
  | .returnSlot id => inferInstanceAs (Decidable (id ∈ l.lent))
  | .create .. | .submit .. | .enqueue .. | .withdrawJob .. | .takeJob | .askRate .. | .protect ..
  | .unprotect .. | .evict | .sweep .. | .start | .stop | .arrive .. | .abandon .. | .firstLook ..
  | .nextLook | .collect .. | .beginTask .. | .report .. | .endTask .. | .poll | .maintain
  | .pass .. => .isTrue trivial

instance decidableFollows (allowed : Loans → Move → Prop) [∀ l move, Decidable (allowed l move)] :
    (l : Loans) → (moves : List Move) → Decidable (Follows allowed l moves)
  | _, [] => .isTrue trivial
  | l, move :: moves =>
    have := decidableFollows allowed (l.make move) moves
    inferInstanceAs (Decidable (allowed l move ∧ Follows allowed (l.make move) moves))

instance (l : Loans) (moves : List Move) : Decidable (l.Honest moves) :=
  decidableFollows ReturnsOwn l moves

instance (l : Loans) (moves : List Move) : Decidable (l.Lawful moves) :=
  decidableFollows _ l moves

variable {l : Loans} {moves first second : List Move} {allowed : Loans → Move → Prop}

theorem make_state (l : Loans) (move : Move) : (l.make move).state = l.state.apply move := rfl

theorem run_append (l : Loans) (first second : List Move) :
    l.run (first ++ second) = (l.run first).run second := by
  simp [run]

-- The books are kept beside the engine and do not change what it does.
theorem run_state (l : Loans) (moves : List Move) : (l.run moves).state = l.state.run moves := by
  induction moves generalizing l with
  | nil => rfl
  | cons move moves ih => exact ih (l.make move)

theorem run_ofState (s : State) (moves : List Move) :
    ((ofState s).run moves).state = s.run moves :=
  run_state (ofState s) moves

theorem follows_append :
    Follows allowed l (first ++ second) ↔
      Follows allowed l first ∧ Follows allowed (l.run first) second := by
  induction first generalizing l with
  | nil => simp [Follows, run]
  | cons move moves ih =>
    simp only [List.cons_append, Follows, ih, and_assoc]
    rfl

-- What every allowed move keeps holds all along a run.
theorem Follows.invariant (inv : Loans → Prop)
    (hstep : ∀ l move, inv l → allowed l move → inv (l.make move))
    (h : Follows allowed l moves) (hinv : inv l) : inv (l.run moves) := by
  induction moves generalizing l with
  | nil => exact hinv
  | cons move moves ih => exact ih h.2 (hstep l move hinv h.1)

end Loans

end Foreman.Engine
