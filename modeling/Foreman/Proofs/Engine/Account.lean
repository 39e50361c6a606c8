import Foreman.Proofs.Engine.Loans
import Foreman.Proofs.Gate.Slots
import Foreman.Proofs.Ledger.Record
import Foreman.Proofs.Queue.Order
import Mathlib.Logic.Relation

namespace Foreman.Engine

-- What there is to know about an engine as far as slots, attempts and records are concerned.
structure Account where
  now : Nat
  issued : Nat
  gate : Gate
  queue : Queue
  ledger : Ledger
  tasks : List Task
  lent : List JobId

def State.account (s : State) (lent : List JobId) : Account where
  now := s.now
  issued := s.issued
  gate := s.line.gate
  queue := s.queue
  ledger := s.ledger
  tasks := s.tasks
  lent := lent

def Loans.account (l : Loans) : Account := l.state.account l.lent

namespace Account

def without (tasks : List Task) (ticket : Nat) : List Task :=
  tasks.filter (fun task => task.ticket != ticket)

def staged (tasks : List Task) (ticket : Nat) (stage : Stage) : List Task :=
  tasks.map fun task => if task.ticket = ticket then { task with stage := stage } else task

-- A job leaves the queue, or comes from elsewhere, and an attempt at it gets a slot.
inductive Admits (a : Account) : Account → Prop
  | admits {job gate} (requeues : Bool)
      (hgate : a.gate.acquire? job = some gate)
      (hqueued : requeues = true → job ∈ a.queue.order) :
      Admits a { a with
        gate := gate
        queue := a.queue.without job
        tasks := a.tasks ++ [⟨a.issued, job, requeues, .starting⟩]
        issued := a.issued + 1 }

-- What the end of an attempt makes of the ledger and the queue. Either there is a new job of the
-- same name, or none, and nothing is recorded, or the job is over, or it is queued again.
inductive Aftermath (a : Account) (task : Task) (before : Job) : Ledger → Queue → Prop
  | stale (hrecord : ∀ job, a.ledger.get? task.job = some job → job.status = .pending) :
      Aftermath a task before a.ledger a.queue
  | finished {job next ledger} (hrewrites : a.ledger.Rewrites task.job job next ledger)
      (hbefore : job.status = .processing) (hafter : next.status.isTerminal = true) :
      Aftermath a task before ledger a.queue
  | retried {job ledger} {reason : String}
      (hrewrites : a.ledger.Rewrites task.job job (job.retriedAfter reason) ledger)
      (hbefore : job.status = .processing) (hrequeues : task.requeues = true)
      (hout : task.job ∉ a.queue.order) (hroom : a.queue.length < a.queue.capacity) :
      Aftermath a task before ledger
        (a.queue.joined task.job (before.priority.getD Job.defaultPriority) a.now)

-- Everything that a move can do to an account.
inductive Step (move : Move) (a : Account) : Account → Prop
  | quiet {now issued} (hnow : a.now ≤ now) (hissued : a.issued ≤ issued) :
      Step move a { a with now := now, issued := issued }
  | lent {job gate} (hgate : a.gate.acquire? job = some gate) :
      Step move a { a with gate := gate, lent := a.lent ++ [job] }
  | taken {job gate} (hgate : a.gate.acquire? job = some gate) (hqueued : job ∈ a.queue.order) :
      Step move a { a with
        gate := gate
        queue := a.queue.without job
        lent := a.lent ++ [job] }
  | returned {job gate} (hmove : move = .returnSlot job) (hlent : job ∈ a.lent)
      (hgate : a.gate.release? job = some gate) :
      Step move a { a with gate := gate, lent := a.lent.erase job }
  | admitted {last} (hadmits : Relation.ReflTransGen Admits a last) : Step move a last
  | begun {task job ledger} (htask : task ∈ a.tasks) (hstage : task.stage = .starting)
      (hready : job.status.canBecome .processing = true)
      (hrewrites : a.ledger.Rewrites task.job job (job.begun a.now) ledger) :
      Step move a { a with
        ledger := ledger
        tasks := staged a.tasks task.ticket (.running (job.begun a.now)) }
  | skipped {task gate} (htask : task ∈ a.tasks) (hstage : task.stage = .starting)
      (hrecord : ∀ job, a.ledger.get? task.job = some job →
        job.status.canBecome .processing = false)
      (hgate : a.gate.release? task.job = some gate) :
      Step move a { a with gate := gate, tasks := without a.tasks task.ticket }
  | progressed {id job ledger} (percent : Nat)
      (hrewrites : a.ledger.Rewrites id job { job with progress := percent } ledger) :
      Step move a { a with ledger := ledger }
  | ended {task before gate ledger queue} (htask : task ∈ a.tasks)
      (hstage : task.stage = .running before) (hmove : move.ends? = some task.ticket)
      (hgate : a.gate.release? task.job = some gate)
      (hafter : Aftermath a task before ledger queue) :
      Step move a { a with
        gate := gate
        queue := queue
        ledger := ledger
        tasks := without a.tasks task.ticket }
  | created {id job ledger} (hmove : move.names? = some id)
      (htouches : a.ledger.Touches id ledger) (hjob : ledger.get? id = some job)
      (hpending : job.status = .pending) :
      Step move a { a with ledger := ledger }
  | submitted {id job ledger priority} (hmove : move.names? = some id)
      (htouches : a.ledger.Touches id ledger) (hjob : ledger.get? id = some job)
      (hpending : job.status = .pending) (hpriority : job.priority = some priority)
      (hout : id ∉ a.queue.order) (hfree : id ∉ a.gate.holders)
      (hroom : a.queue.length < a.queue.capacity) :
      Step move a { a with ledger := ledger, queue := a.queue.joined id priority a.now }
  | refused {id ledger} (hmove : move.names? = some id)
      (htouches : a.ledger.Touches id ledger) (hjob : ledger.get? id = none) :
      Step move a { a with ledger := ledger }
  | prioritized {id job ledger} (priority : Int) (hpending : job.status = .pending)
      (hrewrites : a.ledger.Rewrites id job { job with priority := some priority } ledger) :
      Step move a { a with ledger := ledger }
  | queued {id job ledger} (priority : Int) (hpending : job.status = .pending)
      (hrewrites : a.ledger.Rewrites id job { job with priority := some priority } ledger)
      (hout : id ∉ a.queue.order) (hfree : id ∉ a.gate.holders)
      (hroom : a.queue.length < a.queue.capacity) :
      Step move a { a with ledger := ledger, queue := a.queue.joined id priority a.now }
  | withdrawn {id} (hmove : move = .withdrawJob id) (hqueued : id ∈ a.queue.order)
      (hrecord : ∀ job, a.ledger.get? id = some job → job.status ≠ .pending) :
      Step move a { a with queue := a.queue.without id }
  | discarded {id job ledger} (hqueued : id ∈ a.queue.order)
      (hbefore : a.ledger.get? id = some job) (hpending : job.status = .pending)
      (htouches : a.ledger.Touches id ledger) (hafter : ledger.get? id = none) :
      Step move a { a with queue := a.queue.without id, ledger := ledger }
  | evicted {ledger} (hsheds : a.ledger.Sheds ledger) : Step move a { a with ledger := ledger }

-- The accounts are in balance: every slot given out is either that of one attempt or lent out,
-- no more slots are given out than there are, and a job is in progress only through an attempt
-- that began with its present record, progress apart. While an attempt goes on, nothing else
-- becomes of its job, unless a new job takes its name.
structure Balanced (slots : Nat) (a : Account) : Prop where
  gate : a.gate.Sound
  capacity : a.gate.capacity = slots
  holders : a.gate.holders.Perm (a.tasks.map Task.job ++ a.lent)
  tickets : (a.tasks.map Task.ticket).Nodup
  issued : ∀ task ∈ a.tasks, task.ticket < a.issued
  named : ∀ task ∈ a.tasks, ∀ job, task.stage = .running job → job.id = task.job
  distinct : a.ledger.Distinct
  processing : ∀ id job, a.ledger.get? id = some job → job.status = .processing →
    ∃ task ∈ a.tasks, task.job = id ∧
      ∃ before, task.stage = .running before ∧ job = { before with progress := job.progress }
  running : ∀ task ∈ a.tasks, ∀ before, task.stage = .running before →
    ∀ job, a.ledger.get? task.job = some job → job.status = .pending ∨ job.status = .processing
  queue : a.queue.Ordered a.now
  apart : ∀ task ∈ a.tasks, task.job ∉ a.queue.order

end Account

end Foreman.Engine
