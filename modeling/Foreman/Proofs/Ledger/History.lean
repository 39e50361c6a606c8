import Foreman.Proofs.Ledger.Record

namespace Foreman

-- Everything that can be asked of a ledger. Time goes on in between.
inductive Act where
  | create (id : JobId) (params : Params) (maxRetries : Nat)
  | setPriority (id : JobId) (priority : Int)
  | startAttempt (id : JobId)
  | complete (id : JobId) (artifact : Artifact)
  | retry (id : JobId) (reason : String)
  | fail (id : JobId) (reason : String)
  | setProgress (id : JobId) (percent : Nat)
  | move (id : JobId) (target : Status) (detail : Option String) (artifact : Option Artifact)
  | discard (id : JobId)
  | evict (ttl : Nat)
  | wait (time : Nat)

def Act.names? : Act → Option JobId
  | .create id _ _ => some id
  | _ => none

def Act.time : Act → Nat
  | .wait time => time
  | _ => 0

namespace Ledger

-- What is turned down changes nothing.
def settled {α : Type} (l : Ledger) : Except Fault (α × Ledger) → Ledger
  | .ok (_, next) => next
  | .error _ => l

def act (l : Ledger) (now : Nat) : Act → Ledger
  | .create id params maxRetries => (l.create id params maxRetries now).2
  | .setPriority id priority => l.settled (l.setPriority id priority)
  | .startAttempt id => l.settled (l.startAttempt id now)
  | .complete id artifact => l.settled (l.complete id artifact now)
  | .retry id reason => l.settled (l.retry id reason)
  | .fail id reason => l.settled (l.fail id reason now)
  | .setProgress id percent => l.settled (l.setProgress id percent)
  | .move id target detail artifact => l.settled (l.move id target detail artifact now)
  | .discard id => (l.discard id).getD l
  | .evict ttl => (l.evict ttl now).2
  | .wait _ => l

-- Everything that an act can make of a ledger, and the job that it names for the first time.
inductive Becomes (l : Ledger) (now : Nat) : Option JobId → Ledger → Prop
  | unchanged : Becomes l now none l
  | created (id : JobId) (params : Params) (maxRetries : Nat) :
      Becomes l now (some id) (l.create id params maxRetries now).2
  | prioritized {id job l'} {priority : Int}
      (hrewrites : l.Rewrites id job { job with priority := some priority } l') :
      Becomes l now none l'
  | begun {id job l'} (hcan : job.status.canBecome .processing = true)
      (hrewrites : l.Rewrites id job (job.begun now) l') : Becomes l now none l'
  | completed {id job l'} {artifact : Artifact} (hcan : job.status.canBecome .completed = true)
      (hrewrites : l.Rewrites id job (job.completedWith artifact now) l') : Becomes l now none l'
  | retried {id job l'} {reason : String} (hcan : job.status.canBecome .retrying = true)
      (hbudget : job.canRetry = true)
      (hrewrites : l.Rewrites id job (job.retriedAfter reason) l') : Becomes l now none l'
  | failed {id job l'} {reason : String} (hcan : job.status.canBecome .failed = true)
      (hrewrites : l.Rewrites id job (job.failedWith reason now) l') : Becomes l now none l'
  | progressed {id job l'} {percent : Nat} (hlive : job.status.isTerminal = false)
      (hrewrites : l.Rewrites id job { job with progress := min percent 100 } l') :
      Becomes l now none l'
  | discarded {id l'} (htouches : l.Touches id l') (hnone : l'.get? id = none) :
      Becomes l now none l'
  | evicted (ttl : Nat) : Becomes l now none (l.evict ttl now).2

theorem Becomes.of_error {α : Type} {l : Ledger} {now : Nat} {r : Except Fault (α × Ledger)}
    {fault : Fault} (h : r = .error fault) : Becomes l now none (l.settled r) := by
  rw [h]
  exact .unchanged

section

variable (l : Ledger) (id : JobId) (now : Nat)

theorem startAttempt_becomes : Becomes l now none (l.settled (l.startAttempt id now)) := by
  rcases l.startAttempt_cases id now with ⟨job, l', hcan, hok, hrewrites⟩ | ⟨fault, herror, -⟩
  · rw [hok]
    exact .begun hcan hrewrites
  · exact .of_error herror

theorem complete_becomes (artifact : Artifact) :
    Becomes l now none (l.settled (l.complete id artifact now)) := by
  rcases l.complete_cases id artifact now with ⟨job, l', hcan, hok, hrewrites⟩ | ⟨fault, herror, -⟩
  · rw [hok]
    exact .completed hcan hrewrites
  · exact .of_error herror

theorem retry_becomes (reason : String) : Becomes l now none (l.settled (l.retry id reason)) := by
  rcases l.retry_cases id reason with
    ⟨job, l', hcan, hbudget, hok, hrewrites⟩ | ⟨fault, herror, -⟩
  · rw [hok]
    exact .retried hcan hbudget hrewrites
  · exact .of_error herror

theorem fail_becomes (reason : String) :
    Becomes l now none (l.settled (l.fail id reason now)) := by
  rcases l.fail_cases id reason now with ⟨job, l', hcan, hok, hrewrites⟩ | ⟨fault, herror, -⟩
  · rw [hok]
    exact .failed hcan hrewrites
  · exact .of_error herror

-- The one entry for all moves leads to the four that there are, or nowhere.
theorem move_becomes (target : Status) (detail : Option String) (artifact : Option Artifact) :
    Becomes l now none (l.settled (l.move id target detail artifact now)) := by
  cases target with
  | pending =>
    simp only [move]
    cases l.get? id <;> exact .of_error rfl
  | processing => exact l.startAttempt_becomes id now
  | retrying => exact l.retry_becomes id now (detail.getD "")
  | completed => cases artifact with
    | none =>
      simp only [move]
      cases l.get? id <;> exact .of_error rfl
    | some artifact => exact l.complete_becomes id now artifact
  | failed => exact l.fail_becomes id now (detail.getD "")

end

theorem act_becomes (l : Ledger) (now : Nat) (act : Act) :
    Becomes l now act.names? (l.act now act) := by
  cases act with
  | create id params maxRetries => exact .created id params maxRetries
  | setPriority id priority =>
    rw [Ledger.act]
    rcases l.setPriority_cases id priority with ⟨job, l', hok, hrewrites⟩ | ⟨fault, herror, -⟩
    · rw [hok]
      exact .prioritized hrewrites
    · exact .of_error herror
  | startAttempt id => exact l.startAttempt_becomes id now
  | complete id artifact => exact l.complete_becomes id now artifact
  | retry id reason => exact l.retry_becomes id now reason
  | fail id reason => exact l.fail_becomes id now reason
  | setProgress id percent =>
    rw [Ledger.act]
    rcases l.setProgress_cases id percent with
      ⟨job, l', hlive, hok, hrewrites⟩ | hok | ⟨fault, herror⟩
    · rw [hok]
      exact .progressed hlive hrewrites
    · rw [hok]
      exact .unchanged
    · exact .of_error herror
  | move id target detail artifact => exact l.move_becomes id now target detail artifact
  | discard id =>
    rw [Ledger.act]
    rcases l.discard_cases id with
      ⟨job, l', -, -, hdiscard, htouches, hnone⟩ | ⟨hdiscard, -⟩
    · rw [hdiscard]
      exact .discarded htouches hnone
    · rw [hdiscard]
      exact .unchanged
  | evict ttl => exact .evicted ttl
  | wait time => exact .unchanged

def status? (l : Ledger) (id : JobId) : Option Status := (l.get? id).map Job.status

end Ledger

-- A ledger in time, with the number of attempts at each job that have begun since it was created.
structure Chronicle where
  ledger : Ledger
  now : Nat
  starts : JobId → Nat

namespace Chronicle

def start (now : Nat) : Chronicle := ⟨.empty, now, fun _ => 0⟩

def advance (c : Chronicle) (named : Option JobId) (l' : Ledger) (time : Nat) : Chronicle where
  ledger := l'
  now := c.now + time
  starts id :=
    if named = some id then 0
    else if l'.status? id = some .processing ∧ c.ledger.status? id ≠ some .processing then
      c.starts id + 1
    else c.starts id

def make (c : Chronicle) (act : Act) : Chronicle :=
  c.advance act.names? (c.ledger.act c.now act) act.time

def run (c : Chronicle) (acts : List Act) : Chronicle := acts.foldl make c

variable {c : Chronicle} {l' : Ledger} {id : JobId}

theorem starts_advance_named (time : Nat) : (c.advance (some id) l' time).starts id = 0 :=
  if_pos rfl

theorem starts_advance_of_eq {named : Option JobId} (time : Nat) (hnamed : named ≠ some id)
    (hsame : l'.get? id = c.ledger.get? id) : (c.advance named l' time).starts id = c.starts id := by
  simp [advance, Ledger.status?, hnamed, hsame]

theorem starts_advance_of_begun {job next : Job} (time : Nat)
    (hrewrites : c.ledger.Rewrites id job next l') (hbefore : job.status ≠ .processing)
    (hafter : next.status = .processing) : (c.advance none l' time).starts id = c.starts id + 1 := by
  simp [advance, Ledger.status?, hrewrites.before, hrewrites.after, hbefore, hafter]

theorem starts_advance_of_rewrites {job next : Job} (time : Nat)
    (hrewrites : c.ledger.Rewrites id job next l')
    (hbegun : next.status = .processing → job.status = .processing) :
    (c.advance none l' time).starts id = c.starts id := by
  simpa [advance, Ledger.status?, hrewrites.before, hrewrites.after] using hbegun

end Chronicle

end Foreman
