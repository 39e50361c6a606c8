import Foreman.Job.Identity
import Foreman.Job.Status
import Foreman.Text.Digit

namespace Foreman

inductive Fault where
  | queueFull (capacity : Nat)
  | notFound (job : JobId)
  | invalidTransition (job : JobId) (source target : Status)
  | budgetExhausted (job : JobId) (retries : Nat)
  | slotHeld (job : JobId)
  | io (cause : String)
  | config (cause : String)
  deriving DecidableEq, Repr, Inhabited

namespace Fault

def arrow (source target : Status) : String :=
  source.text ++ " -> " ++ target.text

def message : Fault → String
  | queueFull capacity => "queue full: " ++ Text.ofNat capacity ++ " pending jobs"
  | notFound job => "job not found: " ++ job.text
  | invalidTransition job source target =>
    "invalid transition for job " ++ job.text ++ ": " ++ arrow source target
  | budgetExhausted job retries =>
    "job " ++ job.text ++ " exhausted its retry budget of " ++ Text.ofNat retries
  | slotHeld job => "job " ++ job.text ++ " already holds a slot"
  | io cause => "io error: " ++ cause
  | config cause => "invalid configuration: " ++ cause

def isBackpressure : Fault → Bool
  | queueFull _ => true
  | _ => false

end Fault

inductive Failure where
  | retriable (reason : String)
  | nonRetriable (reason : String)
  | unexpected (chain : List String)
  deriving DecidableEq, Repr, Inhabited

namespace Failure

def joined (chain : List String) : String :=
  ": ".intercalate chain

def message : Failure → String
  | retriable reason => "retriable: " ++ reason
  | nonRetriable reason => "non-retriable: " ++ reason
  | unexpected chain => "unexpected: " ++ joined chain

def isRetriable : Failure → Bool
  | retriable _ => true
  | _ => false

def within (context : String) : Failure → Failure
  | unexpected chain => unexpected (context :: chain)
  | other => other

end Failure

end Foreman
