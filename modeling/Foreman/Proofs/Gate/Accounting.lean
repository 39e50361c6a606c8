import Foreman.Proofs.Gate.Book
import Foreman.Proofs.Gate.Wakeups
import Mathlib.Data.Finset.Card

namespace Foreman.Gate.Session

-- The job for which this call asks when it is its turn. A call that was given up does not ask,
-- nor does one that panics first or is neither new nor woken.
def looker? (s : Session) (tag : Nat) : Option JobId :=
  if tag ∈ s.agenda ∧ s.standing tag ≠ .cancelled then
    match s.fresh.find? (fun request => request.tag == tag) with
    | some request =>
      if Span.InRange (s.now + request.timeout) then some request.job else none
    | none => (s.line.woken.find? (fun call => call.tag == tag)).map Call.job
  else none

-- The job for which a slot is asked.
def asks? (s : Session) : Event → Option JobId
  | .acquireNow job => some job
  | .turn tag => s.looker? tag
  | _ => none

-- Someone is told that he has a slot.
def grants (s : Session) (event : Event) : Bool :=
  match event with
  | .acquireNow job => (s.acquireNow job).1
  | .turn tag => s.standing tag != .ended true && (s.happen event).standing tag == .ended true
  | _ => false

-- The job that gets a slot.
def acquires? (s : Session) (event : Event) : Option JobId :=
  if s.grants event then s.asks? event else none

-- The job that gives its slot back.
def returns? (s : Session) : Event → Option JobId
  | .release job => if (s.release job).1 then some job else none
  | _ => none

-- The jobs that get a slot in a run, each as often as it does.
def acquired (s : Session) : List Event → List JobId
  | [] => []
  | event :: rest => (s.acquires? event).toList ++ (s.happen event).acquired rest

def returned (s : Session) : List Event → List JobId
  | [] => []
  | event :: rest => (s.returns? event).toList ++ (s.happen event).returned rest

variable {s : Session} {tag : Nat} {job : JobId}

theorem looker?_of_mem_fresh (h : s.Tidy) {request : Request} (hrequest : request ∈ s.fresh)
    (hagenda : request.tag ∈ s.agenda) (hstanding : s.standing request.tag ≠ .cancelled)
    (hrange : Span.InRange (s.now + request.timeout)) :
    s.looker? request.tag = some request.job := by
  unfold looker?
  rw [if_pos ⟨hagenda, hstanding⟩, Keyed.find?_key h.fresh_nodup hrequest]
  exact if_pos hrange

theorem looker?_of_not_inRange (h : s.Tidy) {request : Request} (hrequest : request ∈ s.fresh)
    (hrange : ¬ Span.InRange (s.now + request.timeout)) : s.looker? request.tag = none := by
  unfold looker?
  split
  · rw [Keyed.find?_key h.fresh_nodup hrequest]
    exact if_neg hrange
  · rfl

theorem looker?_of_mem_woken (h : s.Tidy) {call : Call} (hcall : call ∈ s.line.woken)
    (hfresh : ∀ request ∈ s.fresh, request.tag ≠ call.tag) (hagenda : call.tag ∈ s.agenda)
    (hstanding : s.standing call.tag ≠ .cancelled) : s.looker? call.tag = some call.job := by
  have hnone : s.fresh.find? (fun request => request.tag == call.tag) = none := by
    simpa using hfresh
  unfold looker?
  rw [if_pos ⟨hagenda, hstanding⟩, hnone, Keyed.find?_key h.woken_nodup hcall]
  rfl

theorem looker?_eq_none (hfresh : ∀ request ∈ s.fresh, request.tag ≠ tag)
    (hwoken : ∀ call ∈ s.line.woken, call.tag ≠ tag) : s.looker? tag = none := by
  have hnofresh : s.fresh.find? (fun request => request.tag == tag) = none := by
    simpa using hfresh
  have hnowoken : s.line.woken.find? (fun call => call.tag == tag) = none := by
    simpa using hwoken
  unfold looker?
  rw [hnofresh, hnowoken, Option.map_none, ite_self]

theorem looker?_of_cancelled (hstanding : s.standing tag = .cancelled) : s.looker? tag = none := by
  unfold looker?
  rw [if_neg (fun h => h.2 hstanding)]

-- A call's turn either gets it the slot it asked for, and it is told so, or leaves the gate as
-- it is; and if it asked, it could not have had one.
def Settles (s after : Session) (tag : Nat) : Prop :=
  (∃ job, s.looker? tag = some job ∧ s.standing tag = .waiting ∧
    after.standing tag = .ended true ∧ s.line.gate.acquire? job = some after.line.gate) ∨
  ((after.standing tag = .ended true → s.standing tag = .ended true) ∧
    after.line.gate = s.line.gate ∧
    ∀ job, s.looker? tag = some job → s.line.gate.acquire? job = none)

theorem settles_look {base : Session} {before line : Line} {call : Call} {verdict : Verdict}
    {now : Nat} (hbook : base.book = s.book) (hgate : before.gate = s.line.gate)
    (hopen : s.IsOpen tag) (hstanding : s.standing tag ≠ .cancelled)
    (hasks : s.looker? tag = some call.job) (hlook : before.look now call = (line, verdict)) :
    s.Settles ((base.withLine line).note tag verdict) tag := by
  have hwaiting : s.standing tag = .waiting := hopen.2.resolve_right hstanding
  have hsame : (base.withLine line).standing tag = s.standing tag := standing_congr hbook tag
  have hgates := Line.look_gate hlook
  rw [hgate] at hgates
  have hline : ((base.withLine line).note tag verdict).line.gate = line.gate := by
    rw [note_line, withLine_line]
  rcases hgates with ⟨rfl, hgranted⟩ | ⟨hnot, hkept⟩
  · refine .inl ⟨call.job, hasks, hwaiting, ?_, hline ▸ hgranted⟩
    refine standing_close_self ?_ (hsame.trans hwaiting)
    show tag ∈ base.book.map Prod.fst
    exact hbook ▸ hopen.1
  · refine .inr ⟨?_, hline.trans hkept, ?_⟩
    · exact fun hended => hsame ▸ ended_of_note hnot hended
    · intro job hjob
      rw [← Option.some.inj (hasks.symm.trans hjob)]
      obtain ⟨g, -, -, rfl⟩ | ⟨hnone, -⟩ | ⟨hnone, -⟩ := Line.look_cases hlook
      · exact absurd rfl hnot
      · exact hgate ▸ hnone
      · exact hgate ▸ hnone

-- A call that does not ask gets no slot.
theorem settles_of_unasked {base : Session} {line : Line} {verdict : Verdict}
    (hbook : base.book = s.book) (hgate : line.gate = s.line.gate) (hnot : verdict ≠ .granted)
    (hasks : s.looker? tag = none) :
    s.Settles ((base.withLine line).note tag verdict) tag := by
  have hsame : (base.withLine line).standing tag = s.standing tag := standing_congr hbook tag
  refine .inr ⟨fun hended => hsame ▸ ended_of_note hnot hended, ?_, fun job hjob => ?_⟩
  · rw [note_line, withLine_line, hgate]
  · exact absurd (hasks.symm.trans hjob) (by simp)

theorem settles_turn (h : s.Tidy) (hb : s.Booked) (hagenda : tag ∈ s.agenda) :
    s.Settles (({ s with agenda := s.agenda.erase tag } : Session).turn tag) tag := by
  rcases turn_cases { s with agenda := s.agenda.erase tag } tag with
    ⟨hstanding, hturn⟩ | ⟨hstanding, request, line, verdict, hrequest, rfl, hrange, hlook, hturn⟩ |
    ⟨-, request, hrequest, rfl, hrange, hturn⟩ |
    ⟨hstanding, hfresh, call, line, verdict, hcall, rfl, hlook, hturn⟩ |
    ⟨hstanding, hfresh, hwoken, ⟨-, hturn⟩ | ⟨-, hturn⟩⟩
  · -- given up
    rw [hturn]
    exact settles_of_unasked rfl (Line.withdraw_gate _ _) (by decide)
      (looker?_of_cancelled hstanding)
  · -- the first look
    rw [hturn]
    exact settles_look rfl rfl (hb.fresh request hrequest) hstanding
      (looker?_of_mem_fresh h hrequest hagenda hstanding hrange) hlook
  · -- no time to wait for
    rw [hturn]
    exact settles_of_unasked rfl rfl (by decide) (looker?_of_not_inRange h hrequest hrange)
  · -- another look
    rw [hturn]
    have hopen : s.IsOpen call.tag := hb.calls call (List.mem_append_right _ hcall)
    have hasks := looker?_of_mem_woken h hcall hfresh hagenda hstanding
    unfold Line.lookAgain at hlook
    refine settles_look rfl ?_ hopen hstanding hasks hlook
    rfl
  · -- out of time
    rw [hturn]
    exact settles_of_unasked rfl (Line.withdraw_gate _ _) (by decide)
      (looker?_eq_none hfresh hwoken)
  · -- nothing to do
    rw [hturn]
    have hasks : s.looker? tag = none := looker?_eq_none hfresh hwoken
    exact .inr ⟨id, rfl, fun job hjob => absurd (hasks.symm.trans hjob) (by simp)⟩

theorem acquireNow_of_eq_some {g : Gate} (hg : s.line.gate.acquire? job = some g) :
    s.acquireNow job = (true, { s with line := { s.line with gate := g } }) := by
  simp only [acquireNow, Line.acquire?, hg, Option.map_some]

theorem acquireNow_of_eq_none (hg : s.line.gate.acquire? job = none) :
    s.acquireNow job = (false, s) := by
  simp only [acquireNow, Line.acquire?, hg, Option.map_none]

theorem grants_turn (hagenda : tag ∈ s.agenda) :
    s.grants (.turn tag) = (s.standing tag != .ended true &&
      (({ s with agenda := s.agenda.erase tag } : Session).turn tag).standing tag ==
        .ended true) := by
  simp only [grants, happen, if_pos hagenda]

-- What an event can do to the gate: a job gets the slot it asked for, a job gives back its
-- slot, or nothing changes because there was none to be had or none to be given back.
theorem gate_happen (h : s.Tidy) (hb : s.Booked) (event : Event) :
    (∃ job, s.asks? event = some job ∧ s.grants event = true ∧ s.returns? event = none ∧
      s.line.gate.acquire? job = some (s.happen event).line.gate) ∨
    (∃ job, event = .release job ∧ s.grants event = false ∧ s.returns? event = some job ∧
      s.line.gate.release? job = some (s.happen event).line.gate) ∨
    (s.grants event = false ∧ s.returns? event = none ∧
      (s.happen event).line.gate = s.line.gate ∧
      (∀ job, s.asks? event = some job → s.line.gate.acquire? job = none) ∧
      ∀ job, event = .release job → s.line.gate.release? job = none) := by
  cases event with
  | acquireNow job =>
    cases hg : s.line.gate.acquire? job with
    | none =>
      have hfails : s.acquireNow job = (false, s) := acquireNow_of_eq_none hg
      refine .inr (.inr ⟨congrArg Prod.fst hfails, rfl, ?_, ?_, by simp⟩)
      · simp only [happen, hfails]
      · rintro _ ⟨⟩
        exact hg
    | some g =>
      have htakes := acquireNow_of_eq_some hg
      refine .inl ⟨job, rfl, congrArg Prod.fst htakes, rfl, ?_⟩
      simp only [happen, htakes, hg]
  | release job =>
    cases hl : s.line.release? job with
    | none =>
      have hg : s.line.gate.release? job = none := by
        simpa [Line.release?] using hl
      have hfails : s.release job = (false, s) := by
        simp only [release, hl]
      refine .inr (.inr ⟨rfl, ?_, ?_, by simp [asks?], by rintro _ ⟨⟩; exact hg⟩)
      · simp only [returns?, hfails, Bool.false_eq_true, if_false]
      · simp only [happen, hfails]
    | some line =>
      have hgives : s.release job = (true, s.withLine line) := by
        simp only [release, hl]
      refine .inr (.inl ⟨job, rfl, rfl, ?_, ?_⟩)
      · simp only [returns?, hgives, if_true]
      · simp only [happen, hgives]
        exact Line.release?_gate hl
  | spawn job timeout => exact .inr (.inr ⟨rfl, rfl, rfl, by simp [asks?], by simp⟩)
  | cancel tag => exact .inr (.inr ⟨rfl, rfl, rfl, by simp [asks?], by simp⟩)
  | pass now =>
    refine .inr (.inr ⟨rfl, rfl, ?_, by simp [asks?], by simp⟩)
    simp only [happen]
    split <;> rfl
  | turn tag =>
    by_cases hagenda : tag ∈ s.agenda
    · have hturn : s.happen (.turn tag) =
          ({ s with agenda := s.agenda.erase tag } : Session).turn tag := if_pos hagenda
      rw [grants_turn hagenda, hturn]
      rcases settles_turn h hb hagenda with
        ⟨job, hasks, hwaiting, hended, hg⟩ | ⟨hstays, hg, hnone⟩
      · exact .inl ⟨job, hasks, by simp [hwaiting, hended], rfl, hg⟩
      · refine .inr (.inr ⟨?_, rfl, hg, hnone, by simp⟩)
        simpa using mt hstays
    · have hasks : s.looker? tag = none := if_neg (fun hlook => hagenda hlook.1)
      have hsame : s.happen (.turn tag) = s := if_neg hagenda
      refine .inr (.inr ⟨?_, rfl, by rw [hsame], by simp [asks?, hasks], by simp⟩)
      simp [grants, hsame]

-- In one event the books of a job stay balanced.
theorem count_happen (h : s.Tidy) (hb : s.Booked) (event : Event) (job : JobId) :
    (s.acquires? event).toList.count job + (if job ∈ s.line.gate.holders then 1 else 0) =
      (s.returns? event).toList.count job +
        (if job ∈ (s.happen event).line.gate.holders then 1 else 0) := by
  rcases gate_happen h hb event with ⟨other, hasks, hgrants, hreturns, hg⟩ |
    ⟨other, -, hgrants, hreturns, hg⟩ | ⟨hgrants, hreturns, hg, -⟩
  · have hfree : other ∉ s.line.gate.holders := (acquire?_eq_some_iff.mp hg).1
    simp only [acquires?, if_pos hgrants, hasks, hreturns, mem_holders_acquire hg]
    by_cases he : job = other
    · simp [he, hfree]
    · simp [he, Ne.symm he]
  · have hheld : other ∈ s.line.gate.holders := (release?_eq_some_iff.mp hg).1
    simp only [acquires?, hgrants, hreturns, mem_holders_release h.sound hg]
    by_cases he : job = other
    · simp [he, hheld]
    · simp [he, Ne.symm he]
  · rw [acquires?, hgrants, hreturns, hg]
    simp

theorem count_runs (h : s.Tidy) (hb : s.Booked) (events : List Event) (job : JobId) :
    (s.acquired events).count job + (if job ∈ s.line.gate.holders then 1 else 0) =
      (s.returned events).count job +
        (if job ∈ (s.runs events).line.gate.holders then 1 else 0) := by
  induction events generalizing s with
  | nil => rfl
  | cons event rest ih =>
    have hstep := count_happen h hb event job
    have hrest := ih (h.happen event) (hb.happen h event)
    have hruns : s.runs (event :: rest) = (s.happen event).runs rest := rfl
    simp only [acquired, returned, List.count_append, hruns]
    omega

theorem capacity_happen (h : s.Tidy) (hb : s.Booked) (event : Event) :
    (s.happen event).line.gate.capacity = s.line.gate.capacity := by
  rcases gate_happen h hb event with ⟨job, -, -, -, hg⟩ | ⟨job, -, -, -, hg⟩ | ⟨-, -, hg, -⟩
  · exact acquire?_capacity hg
  · exact release?_capacity hg
  · rw [hg]

theorem capacity_runs (h : s.Tidy) (hb : s.Booked) (events : List Event) :
    (s.runs events).line.gate.capacity = s.line.gate.capacity := by
  induction events generalizing s with
  | nil => rfl
  | cons event rest ih =>
    exact (ih (h.happen event) (hb.happen h event)).trans (capacity_happen h hb event)

-- A job asks in vain just if the gate is full or it has a slot already.
theorem grants_eq_false_iff (h : s.Tidy) (hb : s.Booked) {event : Event}
    (hasks : s.asks? event = some job) :
    s.grants event = false ↔
      s.line.gate.taken = s.line.gate.capacity ∨ job ∈ s.line.gate.holders := by
  have hbound := h.sound.bounded
  rcases gate_happen h hb event with ⟨other, hother, hgrants, -, hg⟩ |
    ⟨other, rfl, -, -, -⟩ | ⟨hgrants, -, -, hnone, -⟩
  · obtain ⟨hfree, hroom, -⟩ := acquire?_eq_some_iff.mp hg
    rw [← Option.some.inj (hother.symm.trans hasks), hgrants]
    refine iff_of_false (by decide) ?_
    rintro (hfull | hheld)
    · omega
    · exact hfree hheld
  · simp [asks?] at hasks
  · refine iff_of_true hgrants ?_
    rcases acquire?_eq_none_iff.mp (hnone job hasks) with hheld | hfull
    · exact .inr (holds_iff.mp hheld)
    · exact .inl (le_antisymm hbound hfull)

-- Whatever is asked of a gate, and in whatever order the calls have their turns, the counter
-- counts the jobs that have a slot, and each has got one once more than it has given it back.
-- Only a job that gets or gives back a slot changes anything.
theorem slots_accounted (capacity : Nat) (events : List Event) :
    let s := (start capacity).runs events
    (s.line.gate.taken = s.line.gate.holders.toFinset.card ∧ s.line.gate.taken ≤ capacity ∧
      s.line.gate.free = capacity - s.line.gate.taken) ∧
    (∀ job, ((start capacity).acquired events).count job =
      ((start capacity).returned events).count job +
        if job ∈ s.line.gate.holders then 1 else 0) ∧
    ∀ event,
      (∀ job, s.asks? event = some job →
        (s.grants event = false ↔
          s.line.gate.taken = capacity ∨ job ∈ s.line.gate.holders)) ∧
      (s.grants event = true → ∃ job, s.acquires? event = some job) ∧
      (∀ job, event = .release job → (s.returns? event = none ↔ job ∉ s.line.gate.holders)) ∧
      (s.grants event = false → s.returns? event = none →
        (s.happen event).line.gate = s.line.gate) := by
  intro s
  have h : s.Tidy := (tidy_start capacity).runs events
  have hb : s.Booked := (booked_start capacity).runs (tidy_start capacity) events
  have hcapacity : s.line.gate.capacity = capacity :=
    capacity_runs (tidy_start capacity) (booked_start capacity) events
  refine ⟨⟨?_, hcapacity ▸ h.sound.bounded, ?_⟩, ?_, ?_⟩
  · rw [List.toFinset_card_of_nodup h.sound.nodup, h.sound.taken_eq]
  · rw [free, hcapacity]
  · intro job
    have hcount := count_runs (tidy_start capacity) (booked_start capacity) events job
    have hnone : job ∉ (start capacity).line.gate.holders := List.not_mem_nil
    rwa [if_neg hnone, Nat.add_zero] at hcount
  · intro event
    refine ⟨fun job hasks => hcapacity ▸ grants_eq_false_iff h hb hasks, ?_, ?_, ?_⟩
    · intro hgrants
      rcases gate_happen h hb event with ⟨job, hasks, -, -⟩ | ⟨-, -, hnot, -⟩ | ⟨hnot, -⟩
      · exact ⟨job, by rw [acquires?, if_pos hgrants, hasks]⟩
      · exact absurd (hgrants.symm.trans hnot) (by decide)
      · exact absurd (hgrants.symm.trans hnot) (by decide)
    · rintro job rfl
      rcases gate_happen h hb (.release job) with ⟨other, hasks, -⟩ | ⟨other, he, -, hreturns, hg⟩ |
        ⟨-, hreturns, -, -, hnone⟩
      · simp [asks?] at hasks
      · obtain rfl := Event.release.inj he
        have hheld := (release?_eq_some_iff.mp hg).1
        simp [hreturns, hheld]
      · have hfree : job ∉ s.line.gate.holders := by
          simpa using release?_eq_none_iff.mp (hnone job rfl)
        exact iff_of_true hreturns hfree
    · intro hgrants hreturns
      rcases gate_happen h hb event with ⟨-, -, hyes, -⟩ | ⟨job, -, -, hyes, -⟩ | ⟨-, -, hg, -⟩
      · exact absurd (hgrants.symm.trans hyes) (by decide)
      · exact absurd (hreturns.symm.trans hyes) (by simp)
      · exact hg

-- The only slot goes from one job to another that asked in vain and then waited for it.
def handedOn : List Event :=
  [.acquireNow ⟨1⟩, .acquireNow ⟨2⟩, .spawn ⟨2⟩ 100, .turn 0, .release ⟨2⟩, .release ⟨1⟩, .turn 0]

theorem slots_accounted_handedOn :
    (start 1).acquired handedOn = [⟨1⟩, ⟨2⟩] ∧ (start 1).returned handedOn = [⟨1⟩] ∧
      ((start 1).runs handedOn).line.gate.holders = [⟨2⟩] ∧
      ((start 1).acquired handedOn).count ⟨2⟩ = ((start 1).returned handedOn).count ⟨2⟩ + 1 ∧
      ((start 1).runs handedOn).grants (.acquireNow ⟨3⟩) = false :=
  ⟨by decide, by decide, by decide, (slots_accounted 1 handedOn).2.1 ⟨2⟩,
    (((slots_accounted 1 handedOn).2.2 (.acquireNow ⟨3⟩)).1 ⟨3⟩ rfl).mpr (.inl (by decide))⟩

end Foreman.Gate.Session
