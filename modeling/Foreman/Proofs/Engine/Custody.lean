import Foreman.Proofs.Engine.Conduct

namespace Foreman.Engine

variable {b : Blueprint} {around : Surroundings} {t : Timeline} {l : Loans} {moves : List Move}
  {slots : Nat}

namespace Account

theorem balanced_initial (b : Blueprint) (around : Surroundings) :
    ((b.initial around).account []).Balanced (b.slots around) where
  gate := Gate.sound_ofCapacity _
  capacity := rfl
  holders := List.Perm.refl []
  tickets := List.nodup_nil
  issued := by simp [State.account, Blueprint.initial]
  named := by simp [State.account, Blueprint.initial]
  distinct := List.nodup_nil
  processing := by simp [State.account, Blueprint.initial, Ledger.get?, Ledger.empty]
  running := by simp [State.account, Blueprint.initial]
  queue := Queue.ordered_ofCapacity _ _
  apart := by simp [State.account, Blueprint.initial]

theorem known_initial (b : Blueprint) (around : Surroundings) : (b.initial around).Known := by
  simp [State.Known, Blueprint.initial, Line.ofGate, Line.calls]

end Account

open Account

theorem Blueprint.state_of_build (hbuild : b.build around = .ok t) :
    t.state = b.initial around := by
  unfold build at hbuild
  split at hbuild
  · cases hbuild
  · split at hbuild
    · cases hbuild
    · obtain rfl := Except.ok.inj hbuild
      rfl

-- However an engine is used, its accounts are in balance, as long as nobody gives back what is
-- not theirs.
theorem Loans.Honest.balanced (h : l.Honest moves) (hknown : l.state.Known)
    (hbalanced : l.account.Balanced slots) :
    (l.run moves).state.Known ∧ (l.run moves).account.Balanced slots := by
  refine Loans.Follows.invariant (fun l => l.state.Known ∧ l.account.Balanced slots) ?_ h
    ⟨hknown, hbalanced⟩
  rintro l move ⟨hknown, hbalanced⟩ hreturns
  obtain ⟨hstep, hknown⟩ := make_step hknown hbalanced hreturns
  exact ⟨hknown, hbalanced.step hstep⟩

theorem Blueprint.balanced_of_build (hbuild : b.build around = .ok t)
    (h : (Loans.ofState t.state).Honest moves) :
    ((Loans.ofState t.state).run moves).state.Known ∧
      ((Loans.ofState t.state).run moves).account.Balanced (b.slots around) := by
  have hstate := state_of_build hbuild
  refine h.balanced ?_ ?_
  · exact hstate ▸ known_initial b around
  · exact hstate ▸ balanced_initial b around

-- Whether the operation has been called for an attempt and has not returned.
def Stage.isRunning : Stage → Bool
  | starting => false
  | running _ => true

-- Who has the slots. Each of them is that of one attempt or is lent out, and not both; there are
-- never more of them than the engine has; whatever is in progress has an attempt, and a slot.
structure Custody (slots : Nat) (l : Loans) : Prop where
  held : ∀ job, job ∈ l.state.gate.holders ↔
    (∃ task ∈ l.state.tasks, task.job = job) ∨ job ∈ l.lent
  apart : ∀ task ∈ l.state.tasks, task.job ∉ l.lent
  single : (l.state.tasks.map Task.job).Nodup
  lentOnce : l.lent.Nodup
  distinct : l.state.gate.holders.Nodup
  counted : l.state.gate.taken = l.state.gate.holders.length
  bounded : l.state.gate.taken ≤ slots
  processing : ∀ job ∈ l.state.ledger.jobs, job.status = .processing →
    ∃ task ∈ l.state.tasks, task.job = job.id ∧ task.stage.isRunning = true
  operations : ∀ task ∈ l.state.tasks, ∀ job, task.stage = .running job →
    job.id = task.job ∧ task.job ∈ l.state.gate.holders
  concurrency : (l.state.tasks.filter (fun task => task.stage.isRunning)).length ≤ slots
  drained : l.state.tasks = [] → l.lent = [] →
    l.state.gate.taken = 0 ∧ l.state.gate.holders = [] ∧ l.state.gate.free = slots

theorem Account.Balanced.custody (h : l.account.Balanced slots) : Custody slots l := by
  obtain ⟨s, lent⟩ := l
  have hlength : s.line.gate.taken = s.tasks.length + lent.length := h.taken_eq
  have hbounded : s.line.gate.taken ≤ slots := h.capacity ▸ h.gate.bounded
  refine
    { held := ?_
      apart := ?_
      single := List.Nodup.of_append_left h.jobs_nodup
      lentOnce := List.Nodup.of_append_right h.jobs_nodup
      distinct := h.gate.nodup
      counted := h.gate.taken_eq
      bounded := hbounded
      processing := ?_
      operations := fun task htask job hstage =>
        ⟨h.named task htask job hstage, h.mem_holders htask⟩
      concurrency := ?_
      drained := ?_ }
  · intro job
    refine h.holders.mem_iff.trans ?_
    rw [List.mem_append, List.mem_map]
    rfl
  · intro task htask hlent
    exact List.disjoint_of_nodup_append h.jobs_nodup (List.mem_map_of_mem htask) hlent
  · intro job hjob hstatus
    obtain ⟨task, htask, hsame, before, hstage, -⟩ :=
      h.processing job.id job (Ledger.get?_of_mem h.distinct hjob) hstatus
    exact ⟨task, htask, hsame, by rw [hstage]; rfl⟩
  · have hle := List.length_filter_le (fun task : Task => task.stage.isRunning) s.tasks
    simp only
    omega
  · intro htasks hlent
    simp only at htasks hlent
    have htaken : s.line.gate.taken = 0 := by simp [hlength, htasks, hlent]
    have hcapacity : s.line.gate.capacity = slots := h.capacity
    refine ⟨htaken, List.eq_nil_of_length_eq_zero (h.gate.taken_eq.symm.trans htaken), ?_⟩
    simp only [State.gate, Gate.free, htaken, hcapacity, Nat.sub_zero]

-- Whoever uses an engine, and however its operations end: after every step each slot given out
-- has one owner, and there are never more operations than slots.
theorem custody_of_build (hbuild : b.build around = .ok t)
    (hhonest : (Loans.ofState t.state).Honest moves) :
    ((Loans.ofState t.state).run moves).state = t.state.run moves ∧
      Custody (b.slots around) ((Loans.ofState t.state).run moves) :=
  ⟨Loans.run_state _ _, (Blueprint.balanced_of_build hbuild hhonest).2.custody⟩

def Blueprint.idle (slots : Nat) : Blueprint where
  config := { Config.standard with slots := some slots }
  operation := some fun _ _ => ⟨[], 0, [], .success ⟨"out", 0, 0.0⟩⟩
  audit := none
  probe := none

-- Two jobs get the two slots, one of them by hand, while a third has to wait. The one that was
-- started fails and is queued again, and the other slot is given back.
def sharedRun : List Move :=
  [.submit ⟨1⟩ [] 5 none, .submit ⟨2⟩ [] 5 none, .submit ⟨3⟩ [] 5 none, .takeJob, .start, .poll,
    .beginTask 0, .arrive ⟨3⟩ .slot 1000, .firstLook 1, .endTask 0 (.error (.retriable "busy")),
    .returnSlot ⟨1⟩, .nextLook]

theorem custody_of_build_sharedRun :
    ∃ t, (Blueprint.idle 2).build default = .ok t ∧ (Loans.ofState t.state).Honest sharedRun ∧
      Custody 2 ((Loans.ofState t.state).run sharedRun) ∧
      ((Loans.ofState t.state).run sharedRun).state.gate.holders = [⟨3⟩] := by
  have hbuild : (Blueprint.idle 2).build default = .ok _ := rfl
  refine ⟨_, hbuild, ?_, (custody_of_build hbuild ?_).2, ?_⟩
  · decide
  · decide
  · decide

end Foreman.Engine
