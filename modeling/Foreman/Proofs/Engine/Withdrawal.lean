import Foreman.Proofs.Engine.Dispatchable

namespace Foreman

-- A ledger that is asked to discard a job does so if the job is PENDING.
theorem Ledger.get?_discarded (l : Ledger) (id : JobId) :
    (∀ other, other ≠ id → ((l.discard id).getD l).get? other = l.get? other) ∧
      ((l.discard id).getD l).get? id =
        (l.get? id).filter (fun job => job.status != .pending) := by
  rcases l.discard_cases id with
    ⟨job, l', hjob, hpending, hdiscard, htouches, hnone⟩ | ⟨hdiscard, hall⟩
  · rw [hdiscard, Option.getD_some]
    refine ⟨htouches.others, ?_⟩
    rw [hnone, hjob, Option.filter_some_neg]
    simp [hpending]
  · rw [hdiscard, Option.getD_none]
    refine ⟨fun _ _ => rfl, ?_⟩
    cases hjob : l.get? id with
    | none => rfl
    | some job =>
      rw [Option.filter_some_pos]
      simpa using hall job hjob

namespace Engine

variable {b : Blueprint} {around : Surroundings} {t : Timeline} {s s' : State} {id : JobId}

namespace State

-- A job is taken back: nothing but its place in the queue and its record is touched, and of the
-- record only one of a job that is PENDING goes.
structure TakesBack (s s' : State) (id : JobId) : Prop where
  frame : s' = { s with queue := s.queue.without id, ledger := s'.ledger }
  order : s'.queue.order = s.queue.order.filter (· != id)
  others : ∀ other, other ≠ id → s'.ledger.get? other = s.ledger.get? other
  record : s'.ledger.get? id = (s.ledger.get? id).filter (fun job => job.status != .pending)

-- Neither in the queue nor on record.
def Gone (s : State) (id : JobId) : Prop := id ∉ s.queue.order ∧ s.ledger.get? id = none

theorem takesBack_forget (s : State) (id : JobId) :
    s.TakesBack ({ s with queue := s.queue.without id }.forget id) id where
  frame := rfl
  order := s.queue.order_without id
  others := (s.ledger.get?_discarded id).1
  record := (s.ledger.get?_discarded id).2

-- Only what is in the queue can be taken back.
theorem withdrawJob_cases (s : State) (id : JobId) :
    (id ∉ s.queue.order ∧ s.withdrawJob id = (false, s)) ∨
    ∃ s', id ∈ s.queue.order ∧ s.withdrawJob id = (true, s') ∧ s.TakesBack s' id := by
  unfold withdrawJob
  cases herase : s.queue.erase? id with
  | none =>
    refine .inl ⟨fun hin => ?_, rfl⟩
    have hout := Queue.erase?_eq_none_iff.mp herase
    rw [Queue.contains_iff.mpr hin] at hout
    cases hout
  | some queue =>
    obtain ⟨hin, rfl⟩ := Queue.erase?_eq_some herase
    exact .inr ⟨_, hin, rfl, s.takesBack_forget id⟩

theorem TakesBack.gone_iff (h : s.TakesBack s' id) :
    s'.Gone id ↔ ∀ job, s.ledger.get? id = some job → job.status = .pending := by
  have hout : id ∉ s'.queue.order := by
    rw [h.order]
    simp
  rw [Gone, and_iff_right hout, h.record, Option.filter_eq_none_iff]
  simp

end State

-- A queued job waits for its first attempt or for another one, and its record stays in the latter
-- case only.
theorem Loans.Regular.stays_iff {l : Loans} {slots : Nat} (h : l.Regular slots)
    (hqueued : id ∈ l.state.queue.order) (htakes : l.state.TakesBack s' id) :
    ¬ s'.Gone id ↔ ∃ job, l.state.ledger.get? id = some job ∧ job.status = .retrying := by
  obtain ⟨job, hjob, hwaits⟩ := h.waits_of_queued hqueued
  rw [htakes.gone_iff]
  constructor
  · intro hstays
    refine ⟨job, hjob, hwaits.resolve_left fun hpending => hstays ?_⟩
    exact Ledger.forall_get? hjob hpending
  · rintro ⟨found, hfound, hretrying⟩ hall
    cases (hall found hfound).symm.trans hretrying

-- At any time a job can be taken back just when it is in the queue. The rest of the queue keeps its
-- order then, and all other records stay as they are. The job is gone just when its record, if there
-- was one, said PENDING. As long as slots are given back only by those who have them, and no new
-- job takes the name of another, this is to say that the job was not RETRYING.
theorem gone_iff_of_withdrawJob (hbuild : b.build around = .ok t) (moves : List Move)
    (id : JobId) :
    let s := t.state.run moves
    ((s.withdrawJob id).1 = true ↔ id ∈ s.queue.order) ∧
      ((s.withdrawJob id).1 = false → (s.withdrawJob id).2 = s) ∧
      ((s.withdrawJob id).1 = true →
        s.TakesBack (s.withdrawJob id).2 id ∧
        ((s.withdrawJob id).2.Gone id ↔
          ∀ job, s.ledger.get? id = some job → job.status = .pending) ∧
        ((Loans.ofState t.state).Lawful moves →
          (¬ (s.withdrawJob id).2.Gone id ↔
            ∃ job, s.ledger.get? id = some job ∧ job.status = .retrying))) := by
  intro s
  rcases s.withdrawJob_cases id with ⟨hout, heq⟩ | ⟨s', hqueued, heq, htakes⟩
  · rw [heq]
    exact ⟨iff_of_false Bool.false_ne_true hout, fun _ => rfl, fun h => Bool.noConfusion h⟩
  · rw [heq]
    refine ⟨iff_of_true rfl hqueued, fun h => Bool.noConfusion h, fun _ =>
      ⟨htakes, htakes.gone_iff, fun hlawful => ?_⟩⟩
    have hregular := Loans.Lawful.regular hlawful (Blueprint.regular_of_build hbuild)
    have hstate : ((Loans.ofState t.state).run moves).state = s := Loans.run_ofState _ _
    rw [← hstate] at hqueued htakes ⊢
    exact hregular.stays_iff hqueued htakes

-- A job has failed once and waits for its second attempt, and another one for its first.
def secondChance : List Move :=
  [.submit ⟨1⟩ [] 5 (some 1), .start, .poll, .beginTask 0,
    .endTask 0 (.error (.retriable "busy")), .stop, .submit ⟨2⟩ [] 5 none]

theorem gone_iff_of_withdrawJob_secondChance :
    ∃ t, (Blueprint.idle 1).build default = .ok t ∧
      (Loans.ofState t.state).Lawful secondChance ∧
      ((t.state.run secondChance).withdrawJob ⟨2⟩).1 = true ∧
      ((t.state.run secondChance).withdrawJob ⟨2⟩).2.Gone ⟨2⟩ ∧
      ((t.state.run secondChance).withdrawJob ⟨2⟩).2.queue.order = [⟨1⟩] := by
  have hbuild : (Blueprint.idle 1).build default = .ok _ := rfl
  obtain ⟨hqueued, -, htaken⟩ := gone_iff_of_withdrawJob hbuild secondChance ⟨2⟩
  have htrue := hqueued.mpr (by decide)
  obtain ⟨htakes, hgone, -⟩ := htaken htrue
  refine ⟨_, hbuild, by decide, htrue, hgone.mpr ?_, by decide⟩
  rintro job hjob
  obtain rfl := Option.some_inj.mp hjob
  rfl

theorem secondChance_stays_on_record :
    ∃ t job, (Blueprint.idle 1).build default = .ok t ∧
      (Loans.ofState t.state).Lawful secondChance ∧
      ((t.state.run secondChance).withdrawJob ⟨1⟩).1 = true ∧
      ((t.state.run secondChance).withdrawJob ⟨1⟩).2.ledger.get? ⟨1⟩ = some job ∧
      job.status = .retrying ∧
      ¬ ((t.state.run secondChance).withdrawJob ⟨1⟩).2.Gone ⟨1⟩ := by
  refine ⟨_, _, rfl, ?_, ?_, rfl, rfl, ?_⟩
  · decide
  · decide
  · rintro ⟨-, hnone⟩
    cases hnone

end Engine

end Foreman
