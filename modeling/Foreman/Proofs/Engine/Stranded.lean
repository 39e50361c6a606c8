import Foreman.Proofs.Engine.Fidelity
import Foreman.Proofs.Since

namespace Foreman.Engine

-- The job is to be tried again, and there is no way to that: it has neither a place in the queue
-- nor a slot.
def Account.Stranded (a : Account) (id : JobId) : Prop :=
  ∃ job, a.ledger.get? id = some job ∧ job.status = .retrying ∧
    id ∉ a.queue.order ∧ id ∉ a.gate.holders

namespace Account

variable {a a' : Account} {move : Move} {slots : Nat} {id : JobId}

theorem stranded_of_admits (hadmits : a.Admits a') (h : a'.Stranded id) : a.Stranded id := by
  obtain ⟨requeues, hgate, -⟩ := hadmits
  obtain ⟨job, hjob, hstatus, hout, hfree⟩ := h
  rw [Gate.mem_holders_acquire hgate, not_or] at hfree
  refine ⟨job, hjob, hstatus, fun hqueued => hout ?_, hfree.1⟩
  exact Queue.mem_order_without.mpr ⟨hqueued, hfree.2⟩

-- A record that is not that of a job to be tried again cannot be the stranded one.
theorem stranded_of_touches {other : JobId} {ledger : Ledger}
    (htouches : a.ledger.Touches other ledger)
    (hother : ∀ job, ledger.get? other = some job → job.status ≠ .retrying)
    (h : ({ a with ledger := ledger } : Account).Stranded id) : id ≠ other ∧ a.Stranded id := by
  obtain ⟨job, hjob, hstatus, hout, hfree⟩ := h
  obtain ⟨hne, hbefore⟩ := untouched htouches hother hjob hstatus
  exact ⟨hne, job, hbefore, hstatus, hout, hfree⟩

theorem stranded_of_record {other : JobId} {ledger : Ledger} {record : Job}
    (htouches : a.ledger.Touches other ledger) (hrecord : ledger.get? other = some record)
    (hstatus : record.status ≠ .retrying)
    (h : ({ a with ledger := ledger } : Account).Stranded id) : id ≠ other ∧ a.Stranded id :=
  stranded_of_touches htouches (Ledger.forall_get? hrecord hstatus) h

theorem stranded_of_joined {other : JobId} {priority : Int}
    (h : ({ a with queue := a.queue.joined other priority a.now } : Account).Stranded id) :
    id ≠ other ∧ a.Stranded id := by
  obtain ⟨job, hjob, hstatus, hout, hfree⟩ := h
  rw [Queue.mem_order_joined, not_or] at hout
  exact ⟨hout.1, job, hjob, hstatus, hout.2, hfree⟩

-- An attempt that ends does not strand its own job, and no other job is concerned.
theorem stranded_of_aftermath {task : Task} {before job : Job} {ledger : Ledger} {queue : Queue}
    (hafter : Aftermath a task before ledger queue) (hjob : ledger.get? id = some job)
    (hstatus : job.status = .retrying) (hout : id ∉ queue.order) :
    id ≠ task.job ∧ a.ledger.get? id = some job ∧ id ∉ a.queue.order := by
  cases hafter with
  | stale hrecord =>
    refine ⟨?_, hjob, hout⟩
    rintro rfl
    rw [hrecord job hjob] at hstatus
    cases hstatus
  | finished hrewrites _ hterminal =>
    have hover : ∀ job, ledger.get? task.job = some job → job.status ≠ .retrying := by
      refine Ledger.forall_get? hrewrites.after fun hretrying => ?_
      rw [hretrying] at hterminal
      cases hterminal
    obtain ⟨hne, hjob⟩ := untouched hrewrites.toTouches hover hjob hstatus
    exact ⟨hne, hjob, hout⟩
  | retried hrewrites _ _ _ _ =>
    rw [Queue.mem_order_joined, not_or] at hout
    exact ⟨hout.1, hrewrites.others id hout.1 ▸ hjob, hout.2⟩

-- The two ways in which a move can strand a job: it takes the job out of the queue, or gives back
-- its slot.
theorem Step.stranded_before (hstep : Step move a a') (hbalanced : a.Balanced slots)
    (h : a'.Stranded id) :
    a.Stranded id ∨
      ((∃ job, a.ledger.get? id = some job ∧ job.status = .retrying) ∧
        ((move = .withdrawJob id ∧ id ∈ a.queue.order ∧ id ∉ a.gate.holders) ∨
          (move = .returnSlot id ∧ id ∈ a.gate.holders ∧ id ∉ a.queue.order))) := by
  cases hstep with
  | quiet _ _ => exact .inl h
  | lent hgate =>
    obtain ⟨job, hjob, hstatus, hout, hfree⟩ := h
    rw [Gate.mem_holders_acquire hgate, not_or] at hfree
    exact .inl ⟨job, hjob, hstatus, hout, hfree.1⟩
  | taken hgate _ =>
    obtain ⟨job, hjob, hstatus, hout, hfree⟩ := h
    rw [Gate.mem_holders_acquire hgate, not_or] at hfree
    refine .inl ⟨job, hjob, hstatus, fun hqueued => hout ?_, hfree.1⟩
    exact Queue.mem_order_without.mpr ⟨hqueued, hfree.2⟩
  | returned hmove hlent hgate =>
    obtain ⟨job, hjob, hstatus, hout, hfree⟩ := h
    by_cases hheld : id ∈ a.gate.holders
    · rw [Gate.mem_holders_release hbalanced.gate hgate, not_and] at hfree
      obtain rfl := not_not.mp fun hne => hfree hne hheld
      exact .inr ⟨⟨job, hjob, hstatus⟩, .inr ⟨hmove, hheld, hout⟩⟩
    · exact .inl ⟨job, hjob, hstatus, hout, hheld⟩
  | admitted hadmits =>
    clear hbalanced
    refine .inl ?_
    induction hadmits with
    | refl => exact h
    | tail _ hadmits ih => exact ih (stranded_of_admits hadmits h)
  | begun _ _ _ hrewrites =>
    refine .inl (stranded_of_record hrewrites.toTouches hrewrites.after ?_ h).2
    simp [Job.begun]
  | skipped htask _ hrecord hgate =>
    obtain ⟨job, hjob, hstatus, hout, hfree⟩ := h
    refine .inl ⟨job, hjob, hstatus, hout, fun hheld => ?_⟩
    rw [Gate.mem_holders_release hbalanced.gate hgate, not_and] at hfree
    obtain rfl := not_not.mp fun hne => hfree hne hheld
    -- A job that is to be tried again would not have been skipped.
    have hcan := hrecord job hjob
    rw [hstatus] at hcan
    cases hcan
  | progressed percent hrewrites =>
    obtain ⟨job, hjob, hstatus, hout, hfree⟩ := h
    rename_i other record ledger
    by_cases hid : id = other
    · subst hid
      obtain rfl := hrewrites.eq_after hjob
      exact .inl ⟨record, hrewrites.before, hstatus, hout, hfree⟩
    · exact .inl ⟨job, hrewrites.others id hid ▸ hjob, hstatus, hout, hfree⟩
  | ended htask _ _ hgate hafter =>
    obtain ⟨job, hjob, hstatus, hout, hfree⟩ := h
    obtain ⟨hne, hjob, hout⟩ := stranded_of_aftermath hafter hjob hstatus hout
    refine .inl ⟨job, hjob, hstatus, hout, fun hheld => hfree ?_⟩
    exact (Gate.mem_holders_release hbalanced.gate hgate).mpr ⟨hne, hheld⟩
  | created _ htouches hjob hpending =>
    exact .inl (stranded_of_record htouches hjob (by simp [hpending]) h).2
  | submitted _ htouches hjob hpending _ _ _ _ =>
    have hbefore := (stranded_of_joined (a := { a with ledger := _ }) h).2
    exact .inl (stranded_of_record htouches hjob (by simp [hpending]) hbefore).2
  | refused _ htouches hjob =>
    exact .inl (stranded_of_touches htouches (by simp [hjob]) h).2
  | prioritized priority hpending hrewrites =>
    refine .inl (stranded_of_record hrewrites.toTouches hrewrites.after ?_ h).2
    simp [hpending]
  | queued priority hpending hrewrites _ _ _ =>
    have hbefore := (stranded_of_joined (a := { a with ledger := _ }) h).2
    refine .inl (stranded_of_record hrewrites.toTouches hrewrites.after ?_ hbefore).2
    simp [hpending]
  | withdrawn hmove hqueued hrecord =>
    obtain ⟨job, hjob, hstatus, hout, hfree⟩ := h
    by_cases hin : id ∈ a.queue.order
    · rw [Queue.mem_order_without, not_and, not_not] at hout
      obtain rfl := hout hin
      exact .inr ⟨⟨job, hjob, hstatus⟩, .inl ⟨hmove, hin, hfree⟩⟩
    · exact .inl ⟨job, hjob, hstatus, hin, hfree⟩
  | discarded _ _ _ htouches hafter =>
    obtain ⟨job, hjob, hstatus, hout, hfree⟩ := h
    obtain ⟨hne, hjob⟩ := untouched htouches (by simp [hafter]) hjob hstatus
    refine .inl ⟨job, hjob, hstatus, fun hqueued => hout ?_, hfree⟩
    exact Queue.mem_order_without.mpr ⟨hqueued, hne⟩
  | evicted hsheds =>
    obtain ⟨job, hjob, hrest⟩ := h
    exact .inl ⟨job, hsheds.known id job hjob, hrest⟩

theorem frame_of_admits (hadmits : Relation.ReflTransGen Admits a a') :
    a'.ledger = a.ledger ∧ ∀ id ∈ a'.queue.order, id ∈ a.queue.order := by
  induction hadmits with
  | refl => exact ⟨rfl, fun _ hid => hid⟩
  | tail _ hadmits ih =>
    obtain ⟨requeues, -, -⟩ := hadmits
    exact ⟨ih.1, fun id hid => ih.2 id (Queue.mem_order_without.mp hid).1⟩

-- A stranded job stays so until it gets a slot.
theorem Step.stranded_after (hstep : Step move a a') (hbalanced : a.Balanced slots)
    (hfresh : ∀ id, move.names? = some id → a.ledger.contains id = false)
    (h : a.Stranded id) (hfree : id ∉ a'.gate.holders) : a'.Stranded id := by
  obtain ⟨job, hjob, hstatus, hout, hnone⟩ := h
  have hmade : ∀ {other ledger}, move.names? = some other → a.ledger.Touches other ledger →
      id ≠ other ∧ ledger.get? id = some job := by
    intro other ledger hmove htouches
    have hne : id ≠ other := by
      rintro rfl
      rw [Ledger.contains_eq_false_iff.mp (hfresh _ hmove)] at hjob
      cases hjob
    exact ⟨hne, (htouches.others id hne).trans hjob⟩
  have hpending : ∀ {other record}, a.ledger.get? other = some record →
      record.status = .pending → id ≠ other := by
    rintro other record hrecord hpending rfl
    obtain rfl := Option.some_inj.mp (hjob.symm.trans hrecord)
    rw [hstatus] at hpending
    cases hpending
  have hattempt : ∀ task ∈ a.tasks, id ≠ task.job := by
    rintro task htask rfl
    exact hnone (hbalanced.mem_holders htask)
  have hwithout : ∀ other, id ∉ (a.queue.without other).order := fun other hqueued =>
    hout (Queue.mem_order_without.mp hqueued).1
  have hjoined : ∀ {other priority}, id ≠ other →
      id ∉ (a.queue.joined other priority a.now).order := by
    intro other priority hne hqueued
    rcases Queue.mem_order_joined.mp hqueued with he | hqueued
    · exact hne he
    · exact hout hqueued
  cases hstep with
  | quiet _ _ => exact ⟨job, hjob, hstatus, hout, hfree⟩
  | lent _ => exact ⟨job, hjob, hstatus, hout, hfree⟩
  | taken _ _ => exact ⟨job, hjob, hstatus, hwithout _, hfree⟩
  | returned _ _ _ => exact ⟨job, hjob, hstatus, hout, hfree⟩
  | admitted hadmits =>
    obtain ⟨hledger, hqueue⟩ := frame_of_admits hadmits
    exact ⟨job, hledger ▸ hjob, hstatus, fun hqueued => hout (hqueue id hqueued), hfree⟩
  | begun htask _ _ hrewrites =>
    exact ⟨job, (hrewrites.others id (hattempt _ htask)).trans hjob, hstatus, hout, hfree⟩
  | skipped _ _ _ _ => exact ⟨job, hjob, hstatus, hout, hfree⟩
  | progressed percent hrewrites =>
    rename_i other record ledger
    by_cases hid : id = other
    · subst hid
      obtain rfl := hrewrites.eq_before hjob
      exact ⟨_, hrewrites.after, hstatus, hout, hfree⟩
    · exact ⟨job, (hrewrites.others id hid).trans hjob, hstatus, hout, hfree⟩
  | ended htask _ _ _ hafter =>
    have hne := hattempt _ htask
    cases hafter with
    | stale _ => exact ⟨job, hjob, hstatus, hout, hfree⟩
    | finished hrewrites _ _ =>
      exact ⟨job, (hrewrites.others id hne).trans hjob, hstatus, hout, hfree⟩
    | retried hrewrites _ _ _ _ =>
      exact ⟨job, (hrewrites.others id hne).trans hjob, hstatus, hjoined hne, hfree⟩
  | created hmove htouches _ _ =>
    exact ⟨job, (hmade hmove htouches).2, hstatus, hout, hfree⟩
  | submitted hmove htouches _ _ _ _ _ _ =>
    obtain ⟨hne, hjob⟩ := hmade hmove htouches
    exact ⟨job, hjob, hstatus, hjoined hne, hfree⟩
  | refused hmove htouches _ =>
    exact ⟨job, (hmade hmove htouches).2, hstatus, hout, hfree⟩
  | prioritized priority hstart hrewrites =>
    have hne := hpending hrewrites.before hstart
    exact ⟨job, (hrewrites.others id hne).trans hjob, hstatus, hout, hfree⟩
  | queued priority hstart hrewrites _ _ _ =>
    have hne := hpending hrewrites.before hstart
    exact ⟨job, (hrewrites.others id hne).trans hjob, hstatus, hjoined hne, hfree⟩
  | withdrawn _ _ _ => exact ⟨job, hjob, hstatus, hwithout _, hfree⟩
  | discarded _ hbefore hstart htouches _ =>
    have hne := hpending hbefore hstart
    exact ⟨job, (htouches.others id hne).trans hjob, hstatus, hwithout _, hfree⟩
  | evicted hsheds =>
    exact ⟨job, hsheds.kept id job hjob (by rw [hstatus]; rfl), hstatus, hout, hfree⟩

end Account

open Account

variable {b : Blueprint} {around : Surroundings} {t : Timeline} {l : Loans} {moves : List Move}
  {slots : Nat} {id : JobId} {s : State}

namespace State

def Stranded (s : State) (id : JobId) : Prop :=
  ∃ job, s.ledger.get? id = some job ∧ job.status = .retrying ∧
    id ∉ s.queue.order ∧ id ∉ s.gate.holders

-- The move takes away the only way that was left to a job that is to be tried again: its place in
-- the queue while it has no slot, or its slot while it has no place in the queue.
def Strands (s : State) (id : JobId) (move : Move) : Prop :=
  (∃ job, s.ledger.get? id = some job ∧ job.status = .retrying) ∧
    ((move = .withdrawJob id ∧ id ∈ s.queue.order ∧ id ∉ s.gate.holders) ∨
      (move = .returnSlot id ∧ id ∈ s.gate.holders ∧ id ∉ s.queue.order))

theorem stranded_of_strands {move : Move} (h : s.Strands id move) (hsound : s.gate.Sound) :
    (s.apply move).Stranded id := by
  obtain ⟨⟨job, hjob, hstatus⟩, ⟨rfl, hqueued, hfree⟩ | ⟨rfl, hheld, hout⟩⟩ := h
  · have herase : s.queue.erase? id = some (s.queue.without id) := by
      simp only [Queue.erase?, Queue.contains_iff.mpr hqueued, if_true]
      rfl
    have hforget : { s with queue := s.queue.without id }.forget id =
        { s with queue := s.queue.without id } := by
      rcases forget_cases { s with queue := s.queue.without id } id with
        ⟨found, ledger, hfound, hpending, -⟩ | ⟨heq, -⟩
      · obtain rfl := Option.some_inj.mp (hjob.symm.trans hfound)
        rw [hstatus] at hpending
        cases hpending
      · exact heq
    simp only [apply, withdrawJob, herase, hforget]
    exact ⟨job, hjob, hstatus, fun hin => (Queue.mem_order_without.mp hin).2 rfl, hfree⟩
  · have hgate : s.line.gate.release? id = some _ :=
      Gate.release?_eq_some_iff.mpr ⟨hheld, rfl⟩
    obtain ⟨line, hline⟩ : ∃ line, s.line.release? id = some line :=
      ⟨_, Line.release?_eq_some_iff.mpr ⟨_, hgate, rfl⟩⟩
    simp only [apply, returnSlot, hline]
    refine ⟨job, hjob, hstatus, hout, fun hin => ?_⟩
    exact ((Gate.mem_holders_release hsound (Line.release?_gate hline)).mp hin).1 rfl

end State

-- A job is stranded after a move just if it has no slot then, and was stranded before or the move
-- strands it.
theorem Loans.Regular.stranded_make_iff {move : Move} (h : l.Regular slots)
    (hreturns : l.ReturnsOwn move) (hfresh : l.state.NamesAfresh move) :
    (l.make move).state.Stranded id ↔
      (l.state.Stranded id ∨ l.state.Strands id move) ∧ id ∉ (l.make move).state.gate.holders := by
  obtain ⟨hstep, -⟩ := make_step h.known h.balanced hreturns
  constructor
  · intro hstranded
    have hfree : id ∉ (l.make move).state.gate.holders := by
      obtain ⟨job, -, -, -, hfree⟩ := hstranded
      exact hfree
    exact ⟨hstep.stranded_before h.balanced hstranded, hfree⟩
  · rintro ⟨hbefore | hstrands, hfree⟩
    · exact hstep.stranded_after h.balanced hfresh hbefore hfree
    · exact State.stranded_of_strands hstrands h.balanced.gate

theorem Loans.Lawful.stranded_run_iff (hlawful : l.Lawful moves) (h : l.Regular slots)
    (hnone : ¬ l.state.Stranded id) :
    (l.run moves).state.Stranded id ↔
      Since (fun earlier move => (l.run earlier).state.Strands id move)
        (fun run => id ∉ (l.run run).state.gate.holders) moves := by
  refine iff_since (fun run => (l.run run).state.Stranded id) hnone ?_
  rintro before last ⟨rest, rfl⟩
  obtain ⟨hbefore, -⟩ := Loans.follows_append.mp hlawful
  obtain ⟨hbefore, ⟨hreturns, hfresh⟩, -⟩ := Loans.follows_append.mp hbefore
  have hlast : l.run (before ++ [last]) = (l.run before).make last := by
    rw [Loans.run_append]
    rfl
  rw [hlast]
  exact (Loans.Lawful.regular hbefore h).stranded_make_iff hreturns hfresh

-- A job that is to be tried again is left without a way to that just if someone withdrew it from
-- the queue or gave back its slot, and it has had no slot since.
theorem stranded_iff_strands_since (hbuild : b.build around = .ok t)
    (hlawful : (Loans.ofState t.state).Lawful moves) (id : JobId) :
    (t.state.run moves).Stranded id ↔
      Since (fun earlier move => (t.state.run earlier).Strands id move)
        (fun run => id ∉ (t.state.run run).gate.holders) moves := by
  have hregular := Blueprint.regular_of_build hbuild
  have hnone : ¬ (Loans.ofState t.state).state.Stranded id := by
    rintro ⟨job, hjob, -⟩
    rw [show (Loans.ofState t.state).state = b.initial around from
      Blueprint.state_of_build hbuild] at hjob
    simp [Blueprint.initial, Ledger.get?, Ledger.empty] at hjob
  have hstate : ∀ moves, ((Loans.ofState t.state).run moves).state = t.state.run moves :=
    Loans.run_state _
  simpa only [hstate] using Loans.Lawful.stranded_run_iff hlawful hregular hnone

-- A job fails once and waits in the queue for its second attempt when it is withdrawn.
def withdrawnRetry : List Move :=
  [.submit ⟨1⟩ [] 5 (some 1), .start, .poll, .beginTask 0,
    .endTask 0 (.error (.retriable "busy")), .stop, .withdrawJob ⟨1⟩]

theorem stranded_iff_strands_since_withdrawnRetry :
    ∃ t, (Blueprint.idle 1).build default = .ok t ∧
      (Loans.ofState t.state).Lawful withdrawnRetry ∧
      ((t.state.run withdrawnRetry).Stranded ⟨1⟩ ↔
        Since (fun earlier move => (t.state.run earlier).Strands ⟨1⟩ move)
          (fun run => ⟨1⟩ ∉ (t.state.run run).gate.holders) withdrawnRetry) := by
  have hbuild : (Blueprint.idle 1).build default = .ok _ := rfl
  refine ⟨_, hbuild, ?_, stranded_iff_strands_since hbuild ?_ ⟨1⟩⟩
  · decide
  · decide

-- Nothing more happens by itself then: the job is down for another attempt that never comes.
theorem withdrawnRetry_stranded :
    ∃ t, (Blueprint.idle 1).build default = .ok t ∧
      (Loans.ofState t.state).Lawful withdrawnRetry ∧
      ({ t with state := t.state.run withdrawnRetry } : Timeline).step?.isNone = true ∧
      (t.state.run withdrawnRetry).Stranded ⟨1⟩ := by
  refine ⟨_, rfl, ?_, ?_, _, rfl, rfl, ?_, ?_⟩
  · decide
  · decide
  · decide
  · decide

end Foreman.Engine
