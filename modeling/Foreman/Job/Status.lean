namespace Foreman

inductive Status where
  | pending
  | processing
  | retrying
  | completed
  | failed
  deriving DecidableEq, Repr, Inhabited

namespace Status

def isTerminal : Status → Bool
  | completed | failed => true
  | pending | processing | retrying => false

-- The moves the life of a job allows. A retrying job may fail at once:
-- that is a retry which finds no room in the queue.
def canBecome : Status → Status → Bool
  | pending, processing | retrying, processing => true
  | processing, completed | processing, retrying | processing, failed => true
  | retrying, failed => true
  | _, _ => false

def text : Status → String
  | pending => "pending"
  | processing => "processing"
  | retrying => "retrying"
  | completed => "completed"
  | failed => "failed"

def all : List Status := [pending, processing, retrying, completed, failed]

def ofText? (s : String) : Option Status :=
  all.find? (fun status => status.text == s)

theorem canBecome_of_isTerminal {a : Status} (h : a.isTerminal = true) (b : Status) :
    a.canBecome b = false := by
  cases a <;> cases b <;> simp_all [isTerminal, canBecome]

theorem canBecome_self (a : Status) : a.canBecome a = false := by
  cases a <;> rfl

end Status

inductive Outcome where
  | completed
  | retried
  | failed
  | skipped
  deriving DecidableEq, Repr, Inhabited

namespace Outcome

def text : Outcome → String
  | completed => "completed"
  | retried => "retried"
  | failed => "failed"
  | skipped => "skipped"

def all : List Outcome := [completed, retried, failed, skipped]

def ofText? (s : String) : Option Outcome :=
  all.find? (fun outcome => outcome.text == s)

end Outcome

end Foreman
