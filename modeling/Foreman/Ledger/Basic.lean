import Foreman.Fault
import Foreman.Job.Basic

namespace Foreman

structure Ledger where
  jobs : List Job
  deriving Inhabited, Repr

namespace Ledger

def empty : Ledger := ⟨[]⟩

def length (l : Ledger) : Nat := l.jobs.length

def get? (l : Ledger) (id : JobId) : Option Job := l.jobs.find? (fun job => job.id == id)

def contains (l : Ledger) (id : JobId) : Bool := l.jobs.any (fun job => job.id == id)

def matching (l : Ledger) (status : Option Status) : List Job :=
  l.jobs.filter (fun job => status.all (fun s => job.status == s))

def list (l : Ledger) (status : Option Status) (limit : Nat) : List Job :=
  ((l.matching status).mergeSort (fun a b => b.times.created ≤ a.times.created)).take limit

def count (l : Ledger) (status : Status) : Nat := (l.matching (some status)).length

def create (l : Ledger) (id : JobId) (params : Params) (maxRetries now : Nat) : Job × Ledger :=
  let job := Job.fresh id params maxRetries now
  (job, ⟨l.jobs.filter (fun other => other.id != id) ++ [job]⟩)

def update (l : Ledger) (id : JobId) (f : Job → Job) : Ledger :=
  ⟨l.jobs.map (fun job => if job.id = id then f job else job)⟩

def revise (l : Ledger) (id : JobId) (f : Job → Except Fault Job) :
    Except Fault (Job × Ledger) :=
  match l.get? id with
  | none => .error (.notFound id)
  | some job => match f job with
    | .error fault => .error fault
    | .ok job => .ok (job, l.update id (fun _ => job))

def discard (l : Ledger) (id : JobId) : Option Ledger :=
  match l.get? id with
  | none => none
  | some job =>
    if job.status = .pending then some ⟨l.jobs.filter (fun other => other.id != id)⟩ else none

def isExpired (cutoff : Nat) (job : Job) : Bool :=
  job.status.isTerminal && job.times.completed.any (fun done => done < cutoff)

def evict (l : Ledger) (ttl now : Nat) : List JobId × Ledger :=
  ((l.jobs.filter (isExpired (now - ttl))).map Job.id,
    ⟨l.jobs.filter (fun job => !isExpired (now - ttl) job)⟩)

theorem contains_eq_isSome (l : Ledger) (id : JobId) : l.contains id = (l.get? id).isSome := by
  rw [Bool.eq_iff_iff]
  simp [contains, get?, List.find?_isSome]

end Ledger

end Foreman
