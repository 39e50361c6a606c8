import Foreman.Proofs.Engine.Aside

namespace Foreman

namespace Line

variable {l l' : Line} {tag other now : Nat} {call found : Call} {call? : Option Call}
  {verdict : Verdict}

-- The calls with a tag that are in front of the gate. There is one at most.
def callsOf (l : Line) (tag : Nat) : List Call := l.calls.filter (fun call => call.tag == tag)

theorem callsOf_eq (l : Line) (tag : Nat) : l.callsOf tag =
    l.waiting.filter (fun call => call.tag == tag) ++
      l.woken.filter (fun call => call.tag == tag) :=
  List.filter_append ..

theorem eq_of_callsOf (hone : l.callsOf tag = call?.toList) (hfound : found ∈ l.calls)
    (htag : found.tag = tag) : call? = some found := by
  have hmem : found ∈ l.callsOf tag := List.mem_filter.mpr ⟨hfound, by simpa using htag⟩
  rw [hone] at hmem
  exact Option.mem_toList.mp hmem

-- Whoever leaves does not take others along.
theorem filter_tag_of_ne {calls : List Call} (hne : other ≠ tag) :
    (calls.filter (fun call => call.tag != other)).filter (fun call => call.tag == tag) =
      calls.filter (fun call => call.tag == tag) := by
  rw [List.filter_filter]
  refine List.filter_congr fun call _ => ?_
  by_cases htag : call.tag = tag
  · simp [htag, hne.symm]
  · simp [htag]

theorem filter_tag_self (calls : List Call) (tag : Nat) :
    (calls.filter (fun call => call.tag != tag)).filter (fun call => call.tag == tag) = [] := by
  simp [List.filter_filter]

theorem callsOf_wakeOne (l : Line) (tag : Nat) : (l.wakeOne.callsOf tag).Perm (l.callsOf tag) :=
  (wakeOne_calls_perm l).filter _

theorem look_waiting (hlook : l.look now call = (l', verdict)) (hfound : found ∈ l'.waiting) :
    found ∈ l.waiting ∨ found = call := by
  obtain ⟨g, -, rfl, -⟩ | ⟨-, -, rfl, -⟩ | ⟨-, -, -, rfl, -⟩ := look_cases hlook
  · exact .inl hfound
  · exact .inl hfound
  · exact (List.mem_append.mp hfound).imp_right List.mem_singleton.mp

theorem lookFirst_waiting (hlook : l.lookFirst now call = (l', verdict))
    (hfound : found ∈ l'.waiting) : found ∈ l.waiting ∨ found = call := by
  obtain ⟨-, hlook⟩ | ⟨-, rfl, -⟩ := lookFirst_cases hlook
  · exact look_waiting hlook hfound
  · exact .inl hfound

theorem lookAgain_waiting (hlook : l.lookAgain now call = (l', verdict))
    (hfound : found ∈ l'.waiting) : found ∈ l.waiting ∨ found = call := by
  unfold lookAgain at hlook
  have hcases := look_waiting hlook hfound
  exact hcases

theorem callsOf_look_of_ne (hlook : l.look now call = (l', verdict)) (hne : call.tag ≠ tag) :
    l'.callsOf tag = l.callsOf tag := by
  obtain ⟨g, -, rfl, -⟩ | ⟨-, -, rfl, -⟩ | ⟨-, -, -, rfl, -⟩ := look_cases hlook
  · rfl
  · rfl
  · simp [callsOf_eq, List.filter_append, hne]

theorem callsOf_lookFirst_of_ne (hlook : l.lookFirst now call = (l', verdict))
    (hne : call.tag ≠ tag) : l'.callsOf tag = l.callsOf tag := by
  obtain ⟨-, hlook⟩ | ⟨-, rfl, -⟩ := lookFirst_cases hlook
  · exact callsOf_look_of_ne hlook hne
  · rfl

theorem callsOf_look_self (hlook : l.look now call = (l', verdict))
    (hnone : l.callsOf call.tag = []) :
    l'.callsOf call.tag = if verdict = .waits then [call] else [] := by
  obtain ⟨g, -, rfl, rfl⟩ | ⟨-, -, rfl, rfl⟩ | ⟨-, -, -, rfl, rfl⟩ := look_cases hlook
  · exact hnone
  · exact hnone
  · rw [callsOf_eq, List.append_eq_nil_iff] at hnone
    simp [callsOf_eq, List.filter_append, hnone.1, hnone.2]

-- A call that was woken does not wait any more.
theorem waiting_of_woken (hone : l.callsOf tag = call?.toList) (hwoken : found ∈ l.woken)
    (htag : found.tag = tag) : l.waiting.filter (fun call => call.tag == tag) = [] := by
  obtain rfl := eq_of_callsOf hone (List.mem_append_right _ hwoken) htag
  have hmem : found ∈ l.woken.filter (fun call => call.tag == tag) :=
    List.mem_filter.mpr ⟨hwoken, by simpa using htag⟩
  rw [callsOf_eq] at hone
  rcases List.append_eq_singleton_iff.mp hone with ⟨hwaiting, -⟩ | ⟨-, hnone⟩
  · exact hwaiting
  · rw [hnone] at hmem
    cases hmem

theorem callsOf_lookAgain_of_ne (hlook : l.lookAgain now call = (l', verdict))
    (hne : call.tag ≠ tag) : l'.callsOf tag = l.callsOf tag := by
  unfold lookAgain at hlook
  rw [callsOf_look_of_ne hlook hne, callsOf_eq, callsOf_eq, filter_tag_of_ne hne]

theorem callsOf_unwoken (hone : l.callsOf tag = call?.toList) (hwoken : found ∈ l.woken)
    (htag : found.tag = tag) :
    callsOf { l with woken := l.woken.filter (fun call => call.tag != tag) } tag = [] := by
  rw [callsOf_eq, filter_tag_self, waiting_of_woken hone hwoken htag, List.append_nil]

theorem callsOf_withdraw_of_ne (l : Line) (hne : other ≠ tag) :
    ((l.withdraw other).callsOf tag).Perm (l.callsOf tag) := by
  unfold withdraw
  split
  · refine (callsOf_wakeOne _ _).trans (.of_eq ?_)
    rw [callsOf_eq, callsOf_eq, filter_tag_of_ne hne]
  · rw [callsOf_eq, callsOf_eq, filter_tag_of_ne hne]

theorem callsOf_withdraw_self (hone : l.callsOf tag = call?.toList) :
    (l.withdraw tag).callsOf tag = [] := by
  unfold withdraw
  split
  · rename_i hany
    obtain ⟨found, hfound, htag⟩ := List.any_eq_true.mp hany
    refine List.perm_nil.mp ((callsOf_wakeOne _ _).trans (.of_eq ?_))
    exact callsOf_unwoken hone hfound (by simpa using htag)
  · rename_i hany
    have hwoken : l.woken.filter (fun call => call.tag == tag) = [] := by
      rw [List.filter_eq_nil_iff]
      exact fun call hcall htag => hany (List.any_eq_true.mpr ⟨call, hcall, htag⟩)
    rw [callsOf_eq, filter_tag_self, hwoken, List.append_nil]

theorem withdraw_waiting_subset (l : Line) (tag : Nat) : (l.withdraw tag).waiting ⊆ l.waiting := by
  intro call hcall
  unfold withdraw at hcall
  split at hcall
  · have hwaiting := wakeOne_waiting hcall
    exact hwaiting
  · exact (List.mem_filter.mp hcall).1

theorem mem_late : call ∈ l.late now ↔ call ∈ l.waiting ∧ call.deadline ≤ now := by
  simp [late]

theorem callsOf_expire_of_early (hearly : ∀ call ∈ l.late now, call.tag ≠ tag) :
    (l.expire now).1.callsOf tag = l.callsOf tag := by
  have hkept : (l.waiting.filter (fun call => now < call.deadline)).filter
      (fun call => call.tag == tag) = l.waiting.filter (fun call => call.tag == tag) := by
    rw [List.filter_filter]
    refine List.filter_congr fun call hcall => ?_
    by_cases hlate : call.deadline ≤ now
    · simp [hearly call (mem_late.mpr ⟨hcall, hlate⟩)]
    · simp [Nat.lt_of_not_le hlate]
  rw [callsOf_eq, callsOf_eq, expire, hkept]

-- The one that waits is the only one there is, and its time has come.
theorem callsOf_expire_self (hone : l.callsOf call.tag = call?.toList) (hlate : call ∈ l.late now) :
    (l.expire now).1.callsOf call.tag = [] := by
  obtain ⟨hwaiting, hdue⟩ := mem_late.mp hlate
  obtain rfl := eq_of_callsOf hone (List.mem_append_left _ hwaiting) rfl
  have hwoken : l.woken.filter (fun found => found.tag == call.tag) = [] := by
    rw [List.filter_eq_nil_iff]
    intro found hfound htag
    have hnone := waiting_of_woken hone hfound (by simpa using htag)
    exact List.filter_eq_nil_iff.mp hnone call hwaiting (by simp)
  rw [callsOf_eq, expire, hwoken, List.append_nil, List.filter_filter, List.filter_eq_nil_iff]
  intro found hfound htag
  rw [Bool.and_eq_true, beq_iff_eq] at htag
  obtain rfl := Option.some_inj.mp (eq_of_callsOf hone (List.mem_append_left _ hfound) htag.1)
  have hearly : now < call.deadline := by simpa using htag.2
  omega

end Line

namespace Engine

namespace State

-- Nothing has become of the queue, of jobs and the attempts at them, of the books or of the slots.
-- Time may have passed, and callers may stand somewhere else.
def Idle (s s' : State) : Prop :=
  s' = { s with
    now := s'.now
    line := { s'.line with gate := s.line.gate }
    callers := s'.callers
    issued := s'.issued }

-- Whether a move is that of one caller. The clock is everyone's, but it moves for those whose time
-- has come.
def Own (s : State) (tag : Nat) : Move → Prop
  | .firstLook other | .collect other | .abandon other => other = tag
  | .nextLook => ∃ call, s.line.woken.head? = some call ∧ call.tag = tag
  | .pass now => ∃ call ∈ s.line.late now, call.tag = tag
  | _ => False

-- Where a caller stands: in front of the gate if it waits, with the time until which it does, and
-- nowhere otherwise. None waits any longer than that.
structure Stands (s : State) (caller : Caller) (deadline? : Option Nat) : Prop where
  there : s.caller? caller.tag = some caller
  calls : s.line.callsOf caller.tag =
    (deadline?.map fun deadline => (⟨caller.tag, caller.job, deadline⟩ : Call)).toList
  waiting : deadline?.isSome = true ↔ caller.phase = .waiting
  timely : ∀ call ∈ s.line.waiting, call.tag = caller.tag → s.now < call.deadline

-- A caller looks at the gate, for the first time or because it was woken. It will look until some
-- time, which is settled with the first look. Nobody looks who asks for a job that is not on record,
-- or for longer than the clock can tell.
inductive LooksUntil (s : State) (move : Move) (caller : Caller) (deadline? : Option Nat) :
    Nat → Prop
  | first (hmove : move = .firstLook caller.tag) (hphase : caller.phase = .fresh)
      (hknown : s.ledger.contains caller.job = true)
      (hrange : Span.InRange (s.now + caller.timeout)) :
      LooksUntil s move caller deadline? (s.now + caller.timeout)
  | again {deadline} (hmove : move = .nextLook) (hown : s.Own caller.tag move)
      (hasked : deadline? = some deadline) :
      LooksUntil s move caller deadline? deadline

-- A slot is there for a job. It leaves the queue, and there is an attempt at it, which is not to
-- queue it again.
structure Seizes (s s' : State) (job : JobId) : Prop where
  gate : s.gate.acquire? job = some s'.gate
  queue : s'.queue = s.queue.without job
  ledger : s'.ledger = s.ledger
  tasks : s'.tasks = s.tasks ++ [⟨s.issued, job, false, .starting⟩]

-- Everything that a move can be for a caller who is to run a job.
inductive Heeds (s : State) (move : Move) (caller : Caller) (deadline? : Option Nat) :
    Phase → Option Nat → Prop
  | others (hown : ¬ s.Own caller.tag move) :
      Heeds s move caller deadline? caller.phase deadline?
  | vain (hsame : s.apply move = s) (hfirst : caller.phase = .fresh → move ≠ .firstLook caller.tag)
      (hagain : move ≠ .nextLook) :
      Heeds s move caller deadline? caller.phase deadline?
  | unknown (hmove : move = .firstLook caller.tag) (hphase : caller.phase = .fresh)
      (hunknown : s.ledger.contains caller.job = false) (hidle : s.Idle (s.apply move)) :
      Heeds s move caller deadline? (.answered (.refused (.notFound caller.job))) none
  | panics (hmove : move = .firstLook caller.tag) (hknown : s.ledger.contains caller.job = true)
      (hrange : ¬ Span.InRange (s.now + caller.timeout)) (hphase : caller.phase = .fresh)
      (hidle : s.Idle (s.apply move)) :
      Heeds s move caller deadline? .abandoned none
  | waits {deadline} (hlooks : s.LooksUntil move caller deadline? deadline)
      (hfree : caller.job ∉ s.gate.holders) (hidle : s.Idle (s.apply move)) :
      Heeds s move caller deadline? .waiting (some deadline)
  | refused {deadline} (hlooks : s.LooksUntil move caller deadline? deadline)
      (hidle : s.Idle (s.apply move))
      (hreason : caller.job ∈ s.gate.holders ∨ deadline ≤ (s.apply move).now) :
      Heeds s move caller deadline? (.answered (.run none)) none
  | late {now deadline} (hmove : move = .pass now) (hown : s.Own caller.tag move)
      (hasked : deadline? = some deadline) (hidle : s.Idle (s.apply move))
      (htime : deadline ≤ (s.apply move).now) :
      Heeds s move caller deadline? (.answered (.run none)) none
  | granted {deadline} (hlooks : s.LooksUntil move caller deadline? deadline)
      (hseizes : s.Seizes (s.apply move) caller.job) :
      Heeds s move caller deadline? (.running s.issued) none
  | collected {ticket} (hmove : move = .collect caller.tag) (hphase : caller.phase = .running ticket)
      (hover : s.isOver ticket = true) (hidle : s.Idle (s.apply move)) :
      Heeds s move caller deadline? (.answered (.run (s.ledger.get? caller.job))) none
  | abandoned (hmove : move = .abandon caller.tag) (hopen : ∀ answer, caller.phase ≠ .answered answer)
      (hidle : s.Idle (s.apply move)) :
      Heeds s move caller deadline? .abandoned none

-- A move settles what a caller without a slot is told: there is no such job, or the job has a slot
-- when the caller looks, or the caller waits when its time comes.
inductive Settles (s : State) (move : Move) (caller : Caller) : Answer → Prop
  | unknown (hmove : move = .firstLook caller.tag) (hphase : caller.phase = .fresh)
      (hunknown : s.ledger.contains caller.job = false) :
      Settles s move caller (.refused (.notFound caller.job))
  | held {deadline? deadline} (hlooks : s.LooksUntil move caller deadline? deadline)
      (hheld : caller.job ∈ s.gate.holders) :
      Settles s move caller (.run none)
  | late {now} (hmove : move = .pass now) (hown : s.Own caller.tag move)
      (hpasses : (s.apply move).now = now) :
      Settles s move caller (.run none)

-- A move is one of these for a caller, who stands accordingly from then on.
def Treats (s : State) (move : Move) (caller : Caller) (deadline? : Option Nat) : Prop :=
  ∃ phase until?, s.Heeds move caller deadline? phase until? ∧
    (s.apply move).Stands { caller with phase := phase } until?

variable {s s' : State} {move : Move} {caller other : Caller} {tag : Nat} {phase : Phase}
  {deadline? : Option Nat} {deadline : Nat}

theorem LooksUntil.own (h : s.LooksUntil move caller deadline? deadline) :
    s.Own caller.tag move := by
  cases h with
  | first hmove _ _ _ => exact hmove ▸ rfl
  | again _ hown _ => exact hown

theorem LooksUntil.move_cases (h : s.LooksUntil move caller deadline? deadline) :
    move = .firstLook caller.tag ∨ move = .nextLook := by
  cases h with
  | first hmove _ _ _ => exact .inl hmove
  | again hmove _ _ => exact .inr hmove

theorem Idle.refl (s : State) : s.Idle s := rfl

theorem caller?_setCaller (s : State) (changed tag : Nat) (phase : Phase) :
    (s.setCaller changed phase).caller? tag = (s.caller? tag).map fun found =>
      if found.tag = changed then { found with phase := phase } else found := by
  have hkey : ∀ found : Caller,
      (if found.tag = changed then { found with phase := phase } else found).tag = found.tag := by
    intro found
    split <;> rfl
  simp only [caller?, setCaller, List.find?_map, Function.comp_def, hkey]

theorem caller?_setCaller_self (h : s.caller? caller.tag = some caller) (phase : Phase) :
    (s.setCaller caller.tag phase).caller? caller.tag = some { caller with phase := phase } := by
  rw [caller?_setCaller, h, Option.map_some, if_pos rfl]

theorem caller?_setCaller_of_ne {changed : Nat} (hne : changed ≠ tag) (phase : Phase) :
    (s.setCaller changed phase).caller? tag = s.caller? tag := by
  rw [caller?_setCaller]
  cases hfound : s.caller? tag with
  | none => rfl
  | some found => rw [Option.map_some, if_neg (caller?_tag hfound ▸ hne.symm)]

-- How a verdict leaves a caller who is to run a job.
def heard (s : State) : Verdict → Phase
  | .granted => .running s.issued
  | .refused => .answered (.run none)
  | .waits => .waiting
  | .panics => .abandoned

theorem hear_granted (haim : caller.aim = .run) : s.hear caller .granted =
    ({ s with queue := s.queue.without caller.job }.setCaller caller.tag
      (.running s.issued)).spawn caller.job false := by
  simp only [hear, haim, Queue.erase?_getD]

theorem hear_refused (haim : caller.aim = .run) :
    s.hear caller .refused = s.setCaller caller.tag (.answered (.run none)) := by
  simp only [hear, haim]

theorem caller?_hear_self (h : s.caller? caller.tag = some caller) (haim : caller.aim = .run)
    (verdict : Verdict) : (s.hear caller verdict).caller? caller.tag =
      some { caller with phase := s.heard verdict } := by
  cases verdict with
  | granted =>
    rw [hear_granted haim]
    exact caller?_setCaller_self (s := { s with queue := _ }) h _
  | refused =>
    rw [hear_refused haim]
    exact caller?_setCaller_self h _
  | waits => exact caller?_setCaller_self h _
  | panics => exact caller?_setCaller_self h _

theorem caller?_hear_of_ne (hne : other.tag ≠ tag) (verdict : Verdict) :
    (s.hear other verdict).caller? tag = s.caller? tag := by
  cases verdict with
  | granted =>
    simp only [hear]
    split
    · exact caller?_setCaller_of_ne hne _
    · exact caller?_setCaller_of_ne (s := { s with queue := _ }) hne _
  | refused => exact caller?_setCaller_of_ne hne _
  | waits => exact caller?_setCaller_of_ne hne _
  | panics => exact caller?_setCaller_of_ne hne _

theorem now_hear (s : State) (caller : Caller) (verdict : Verdict) :
    (s.hear caller verdict).now = s.now := by
  cases verdict with
  | granted =>
    simp only [hear]
    split
    · rfl
    · rfl
  | refused => rfl
  | waits => rfl
  | panics => rfl

-- One whose time has come is turned away.
def turnAway (s : State) (call : Call) : State :=
  match s.caller? call.tag with
  | none => s
  | some caller => s.hear caller .refused

theorem expireCallers_eq (s : State) : s.expireCallers =
    (s.line.late s.now).foldl turnAway { s with line := (s.line.expire s.now).1 } := rfl

theorem caller?_turnAway_of_ne {call : Call} (hne : call.tag ≠ tag) :
    (s.turnAway call).caller? tag = s.caller? tag := by
  unfold turnAway
  split
  · rfl
  · rename_i found hfound
    exact caller?_hear_of_ne (caller?_tag hfound ▸ hne) _

theorem caller?_turnAway_self {call : Call}
    (h : s.caller? caller.tag = some { caller with phase := phase }) (haim : caller.aim = .run)
    (htag : call.tag = caller.tag) : (s.turnAway call).caller? caller.tag =
      some { caller with phase := .answered (.run none) } := by
  have hthere : s.caller? ({ caller with phase := phase } : Caller).tag =
      some { caller with phase := phase } := h
  simp only [turnAway, htag, h]
  exact caller?_hear_self hthere haim .refused

theorem caller?_foldl_turnAway_of_ne {calls : List Call} (hne : ∀ call ∈ calls, call.tag ≠ tag) :
    (calls.foldl turnAway s).caller? tag = s.caller? tag := by
  induction calls generalizing s with
  | nil => rfl
  | cons call calls ih =>
    rw [List.forall_mem_cons] at hne
    rw [List.foldl_cons, ih hne.2, caller?_turnAway_of_ne hne.1]

theorem caller?_foldl_turnAway_self {calls : List Call}
    (h : s.caller? caller.tag = some { caller with phase := phase }) (haim : caller.aim = .run)
    (hcalls : ∃ call ∈ calls, call.tag = caller.tag) :
    (calls.foldl turnAway s).caller? caller.tag =
      some { caller with phase := .answered (.run none) } := by
  induction calls generalizing s phase with
  | nil => simp at hcalls
  | cons call calls ih =>
    rw [List.foldl_cons]
    by_cases hrest : ∃ call ∈ calls, call.tag = caller.tag
    · by_cases htag : call.tag = caller.tag
      · exact ih (caller?_turnAway_self h haim htag) hrest
      · exact ih ((caller?_turnAway_of_ne htag).trans h) hrest
    · have htag : call.tag = caller.tag := by
        obtain ⟨found, hfound, htag⟩ := hcalls
        rcases List.mem_cons.mp hfound with rfl | hfound
        · exact htag
        · exact absurd ⟨found, hfound, htag⟩ hrest
      have hne : ∀ call ∈ calls, call.tag ≠ caller.tag := fun call hcall htag =>
        hrest ⟨call, hcall, htag⟩
      rw [caller?_foldl_turnAway_of_ne hne]
      exact caller?_turnAway_self h haim htag

theorem not_mem_of_callsOf {line : Line} {call : Call} (hnone : line.callsOf tag = [])
    (hcall : call ∈ line.waiting) : call.tag ≠ tag := by
  intro htag
  have hnobody : line.callsOf tag = (none : Option Call).toList := hnone
  cases Line.eq_of_callsOf hnobody (List.mem_append_left _ hcall) htag

namespace Stands

variable (h : s.Stands caller deadline?)

include h

-- What others do, and what happens to them, leaves a caller where it is.
theorem stay (hthere : s'.caller? caller.tag = s.caller? caller.tag)
    (hcalls : (s'.line.callsOf caller.tag).Perm (s.line.callsOf caller.tag))
    (htimely : ∀ call ∈ s'.line.waiting, call.tag = caller.tag → s'.now < call.deadline) :
    s'.Stands caller deadline? where
  there := hthere.trans h.there
  calls := by
    rw [h.calls] at hcalls
    cases deadline? with
    | none => exact List.perm_nil.mp hcalls
    | some deadline => exact List.perm_singleton.mp hcalls
  waiting := h.waiting
  timely := htimely

theorem stay_hear {line : Line} (hne : other.tag ≠ caller.tag)
    (hcalls : line.callsOf caller.tag = s.line.callsOf caller.tag)
    (hwaiting : ∀ call ∈ line.waiting, call.tag = caller.tag → call ∈ s.line.waiting)
    (verdict : Verdict) : ({ s with line := line }.hear other verdict).Stands caller deadline? := by
  have hline := (hear_frame { s with line := line } other verdict).1
  refine h.stay (caller?_hear_of_ne hne verdict) ?_ ?_
  · rw [hline, hcalls]
  · rw [hline, now_hear]
    exact fun call hcall htag => h.timely call (hwaiting call hcall htag) htag

-- Whoever does not wait is not in front of the gate.
theorem callsOf_eq_nil (hphase : caller.phase ≠ .waiting) :
    deadline? = none ∧ s.line.callsOf caller.tag = [] := by
  have hnone : deadline? = none := by
    rw [← Option.not_isSome_iff_eq_none, h.waiting]
    exact hphase
  refine ⟨hnone, ?_⟩
  rw [h.calls, hnone]
  rfl

theorem phase_of_asked (hasked : deadline? = some deadline) : caller.phase = .waiting :=
  h.waiting.mp (by rw [hasked]; rfl)

theorem eq_of_call {call : Call} (hcall : call ∈ s.line.calls) (htag : call.tag = caller.tag) :
    ∃ deadline, deadline? = some deadline ∧ call = ⟨caller.tag, caller.job, deadline⟩ := by
  obtain ⟨deadline, hasked, hcall⟩ :=
    Option.map_eq_some_iff.mp (Line.eq_of_callsOf h.calls hcall htag)
  exact ⟨deadline, hasked, hcall.symm⟩

end Stands

-- One look at the gate, whether it is the first one or another one. `front` is what is in front of
-- the gate without the one who looks.
theorem heeds_look {front line : Line} {verdict : Verdict}
    (hthere : s.caller? caller.tag = some caller) (haim : caller.aim = .run)
    (hlooks : s.LooksUntil move caller deadline? deadline)
    (hfront : front.callsOf caller.tag = []) (hgate : front.gate = s.line.gate)
    (hlook : front.look s.now ⟨caller.tag, caller.job, deadline⟩ = (line, verdict))
    (hnext : s.apply move = { s with line := line }.hear caller verdict) :
    s.Treats move caller deadline? := by
  have hcalls := Line.callsOf_look_self hlook hfront
  have hheard : (s.apply move).caller? caller.tag = some { caller with phase := s.heard verdict } :=
    hnext ▸ caller?_hear_self (s := { s with line := line }) hthere haim verdict
  have hline : (s.apply move).line = line :=
    hnext ▸ (hear_frame { s with line := line } caller verdict).1
  have hnow : (s.apply move).now = s.now := hnext ▸ now_hear { s with line := line } caller verdict
  obtain ⟨g, hacquire, rfl, rfl⟩ | ⟨-, hreason, rfl, rfl⟩ | ⟨-, hunheld, hearly, rfl, rfl⟩ :=
    Line.look_cases hlook
  · rw [hear_granted haim] at hnext
    refine ⟨_, none, .granted hlooks ?_, hheard, hline ▸ hcalls, by simp, ?_⟩
    · rw [hgate] at hacquire
      exact ⟨by rw [hnext]; exact hacquire, by rw [hnext]; rfl, by rw [hnext]; rfl,
        by rw [hnext]; rfl⟩
    · rw [hline]
      exact fun call hcall htag => absurd htag (not_mem_of_callsOf hfront hcall)
  · rw [hear_refused haim] at hnext
    refine ⟨_, none, .refused hlooks ?_ ?_, hheard, hline ▸ hcalls, by simp, ?_⟩
    · rw [hnext, Idle]
      simp only [setCaller, ← hgate]
    · rw [hnow, State.gate, ← hgate]
      exact hreason
    · rw [hline]
      exact fun call hcall htag => absurd htag (not_mem_of_callsOf hfront hcall)
  · refine ⟨_, some deadline, .waits hlooks ?_ ?_, hheard, hline ▸ hcalls, by simp, ?_⟩
    · rw [State.gate, ← hgate]
      exact hunheld
    · rw [hnext, Idle]
      simp only [hear, setCaller, ← hgate]
    · rw [hline, hnow]
      intro call hcall htag
      rcases List.mem_append.mp hcall with hold | hnew
      · exact absurd htag (not_mem_of_callsOf hfront hold)
      · rw [List.mem_singleton.mp hnew]
        exact hearly

theorem heeds_others (hown : ¬ s.Own caller.tag move)
    (hstands : (s.apply move).Stands caller deadline?) : s.Treats move caller deadline? :=
  ⟨caller.phase, deadline?, .others hown, hstands⟩

namespace Stands

variable (h : s.Stands caller deadline?)

include h

theorem heeds_vain (hsame : s.apply move = s)
    (hfirst : caller.phase = .fresh → move ≠ .firstLook caller.tag) (hagain : move ≠ .nextLook) :
    s.Treats move caller deadline? := by
  refine ⟨caller.phase, deadline?, .vain hsame hfirst hagain, ?_⟩
  rw [hsame]
  exact h

theorem heeds_aside (hattends : move.attends = false) :
    s.Treats move caller deadline? := by
  have haside := s.aside_apply hattends
  have hown : ¬ s.Own caller.tag move := by
    cases move <;> first | exact id | cases hattends
  refine heeds_others hown (h.stay ?_ (haside.calls.filter _) ?_)
  · rw [caller?, haside.callers]
    rfl
  · rw [haside.now]
    exact fun call hcall htag => h.timely call (haside.waiting hcall) htag

theorem heeds_arrive (job : JobId) (aim : Aim) (timeout : Nat) :
    s.Treats (.arrive job aim timeout) caller deadline? := by
  refine heeds_others id (h.stay ?_ (.refl _) h.timely)
  have hthere := h.there
  rw [caller?] at hthere
  simp [caller?, apply, arrive, List.find?_append, hthere]

theorem heeds_firstLook (haim : caller.aim = .run) (tag : Nat) :
    s.Treats (.firstLook tag) caller deadline? := by
  by_cases htag : tag = caller.tag
  · subst htag
    by_cases hphase : caller.phase = .fresh
    · obtain ⟨hnone, hcalls⟩ := h.callsOf_eq_nil (by simp [hphase])
      have hnext : s.apply (.firstLook caller.tag) = s.firstLook caller := by
        simp only [apply, withCaller, h.there, hphase]
      by_cases hknown : s.ledger.contains caller.job = true
      · rw [firstLook, if_neg (by simp [hknown])] at hnext
        by_cases hrange : Span.InRange (s.now + caller.timeout)
        · rcases hlook : s.line.look s.now ⟨caller.tag, caller.job, s.now + caller.timeout⟩ with
            ⟨line, verdict⟩
          rw [Line.lookFirst, if_pos hrange, hlook] at hnext
          exact heeds_look h.there haim (.first rfl hphase hknown hrange) hcalls rfl hlook hnext
        · rw [Line.lookFirst, if_neg hrange] at hnext
          refine ⟨_, none, .panics rfl hknown hrange hphase ?_, ?_, ?_, by simp, ?_⟩
          · rw [hnext]
            rfl
          · rw [hnext]
            exact caller?_setCaller_self h.there _
          · rw [hnext]
            exact hcalls
          · rw [hnext]
            exact h.timely
      · rw [Bool.not_eq_true] at hknown
        rw [firstLook, if_pos ⟨haim, hknown⟩] at hnext
        refine ⟨_, none, .unknown rfl hphase hknown ?_, ?_, ?_, by simp, ?_⟩
        · rw [hnext]
          rfl
        · rw [hnext]
          exact caller?_setCaller_self h.there _
        · rw [hnext]
          exact hcalls
        · rw [hnext]
          exact h.timely
    · refine h.heeds_vain ?_ (fun hfresh => absurd hfresh hphase) (by simp)
      simp only [apply, withCaller, h.there]
  · refine heeds_others htag ?_
    simp only [apply, withCaller]
    split
    · rename_i found hfound
      have hne : found.tag ≠ caller.tag := caller?_tag hfound ▸ htag
      split
      · unfold firstLook
        split
        · exact h.stay (caller?_setCaller_of_ne hne _) (.refl _) h.timely
        · rcases hlook : s.line.lookFirst s.now ⟨found.tag, found.job, s.now + found.timeout⟩ with
            ⟨line, verdict⟩
          refine h.stay_hear hne (Line.callsOf_lookFirst_of_ne hlook hne) (fun call hcall hsame => ?_) _
          rcases Line.lookFirst_waiting hlook hcall with hold | rfl
          · exact hold
          · exact absurd hsame hne
      · exact h
    · exact h

theorem heeds_nextLook (haim : caller.aim = .run) : s.Treats .nextLook caller deadline? := by
  cases hresume : s.line.resume s.now with
  | none =>
    have hnext : s.apply .nextLook = s := by simp only [apply, nextLook, hresume]
    have hown : ¬ s.Own caller.tag .nextLook := by
      rintro ⟨first, hfirst, -⟩
      simp [Line.resume, hfirst] at hresume
    refine heeds_others hown ?_
    rw [hnext]
    exact h
  | some resumed =>
    obtain ⟨call, line, verdict⟩ := resumed
    obtain ⟨hwoken, hlook⟩ := Line.resume_cases hresume
    have hhead : s.line.woken.head? = some call := by
      simp only [Line.resume, Option.map_eq_some_iff, Prod.mk.injEq] at hresume
      obtain ⟨first, hfirst, rfl, -⟩ := hresume
      exact hfirst
    by_cases htag : call.tag = caller.tag
    · obtain ⟨deadline, hasked, rfl⟩ := h.eq_of_call (List.mem_append_right _ hwoken) htag
      have hfront := Line.callsOf_unwoken h.calls hwoken rfl
      refine heeds_look h.there haim (.again rfl ⟨_, hhead, rfl⟩ hasked) hfront rfl hlook ?_
      simp only [apply, nextLook, hresume]
      rw [show ({ s with line := line } : State).caller? caller.tag = some caller from h.there]
    · have hown : ¬ s.Own caller.tag .nextLook := by
        rintro ⟨first, hfirst, hsame⟩
        obtain rfl := Option.some_inj.mp (hhead.symm.trans hfirst)
        exact htag hsame
      have hcalls := Line.callsOf_lookAgain_of_ne hlook htag
      have hwaiting : ∀ found ∈ line.waiting, found.tag = caller.tag →
          found ∈ s.line.waiting := by
        intro found hfound hsame
        rcases Line.lookAgain_waiting hlook hfound with hold | rfl
        · exact hold
        · exact absurd hsame htag
      refine heeds_others hown ?_
      simp only [apply, nextLook, hresume]
      split
      · exact h.stay rfl (.of_eq hcalls) fun found hfound hsame =>
          h.timely found (hwaiting found hfound hsame) hsame
      · rename_i found hfound
        have hne : found.tag ≠ caller.tag := caller?_tag hfound ▸ htag
        exact h.stay_hear hne hcalls hwaiting verdict

theorem heeds_collect (tag : Nat) : s.Treats (.collect tag) caller deadline? := by
  by_cases htag : tag = caller.tag
  · subst htag
    by_cases hdone : ∃ ticket, caller.phase = .running ticket ∧ s.isOver ticket = true
    · obtain ⟨ticket, hphase, hover⟩ := hdone
      obtain ⟨-, hcalls⟩ := h.callsOf_eq_nil (by simp [hphase])
      have hnext : s.apply (.collect caller.tag) = s.collect caller := by
        simp only [apply, withCaller, h.there, hphase, hover, if_true]
      refine ⟨_, none, .collected rfl hphase hover ?_, ?_, ?_, by simp, ?_⟩
      · rw [hnext]
        rfl
      · rw [hnext]
        exact caller?_setCaller_self h.there _
      · rw [hnext]
        exact hcalls
      · rw [hnext]
        exact h.timely
    · refine h.heeds_vain ?_ (by simp) (by simp)
      simp only [apply, withCaller, h.there]
      split
      · rename_i ticket hphase
        exact if_neg fun hover => hdone ⟨ticket, hphase, hover⟩
      · rfl
  · refine heeds_others htag ?_
    simp only [apply, withCaller]
    split
    · rename_i found hfound
      have hne : found.tag ≠ caller.tag := caller?_tag hfound ▸ htag
      split
      · split
        · exact h.stay (caller?_setCaller_of_ne hne _) (.refl _) h.timely
        · exact h
      · exact h
    · exact h

theorem heeds_abandon (tag : Nat) : s.Treats (.abandon tag) caller deadline? := by
  by_cases htag : tag = caller.tag
  · subst htag
    by_cases hover : s.abandon caller.tag = s
    · exact h.heeds_vain hover (by simp) (by simp)
    · have hnext : s.apply (.abandon caller.tag) =
          { s with line := s.line.withdraw caller.tag }.setCaller caller.tag .abandoned := by
        simp only [apply, abandon, h.there] at hover ⊢
        split
        · rename_i hphase
          simp [hphase] at hover
        · rename_i hphase
          simp [hphase] at hover
        · rfl
      have hopen : ∀ answer, caller.phase ≠ .answered answer := fun answer hphase =>
        hover (by simp only [abandon, h.there, hphase])
      have hgone := Line.callsOf_withdraw_self h.calls
      refine ⟨_, none, .abandoned rfl hopen ?_, ?_, ?_, by simp, ?_⟩
      · rw [hnext, Idle]
        simp only [setCaller, ← Line.withdraw_gate s.line caller.tag]
      · rw [hnext]
        exact caller?_setCaller_self (s := { s with line := _ }) h.there _
      · rw [hnext]
        exact hgone
      · rw [hnext]
        exact fun call hcall hsame => absurd hsame (not_mem_of_callsOf hgone hcall)
  · refine heeds_others htag ?_
    have hgone : ({ s with line := s.line.withdraw tag }.setCaller tag .abandoned).Stands
        caller deadline? := by
      refine h.stay ?_ (Line.callsOf_withdraw_of_ne s.line htag) ?_
      · exact caller?_setCaller_of_ne htag _
      · exact fun call hcall => h.timely call (Line.withdraw_waiting_subset _ _ hcall)
    simp only [apply, abandon]
    split
    · exact h
    · split
      · exact h
      · exact h
      · exact hgone

-- Time passes. Those whose time has come are turned away, and those who stay have time left.
theorem heeds_pass (haim : caller.aim = .run) (now : Nat) :
    s.Treats (.pass now) caller deadline? := by
  by_cases hdue : s.now ≤ now ∧ s.nextDue.all (fun due => now ≤ due) = true
  · have hnext : s.apply (.pass now) = { s with now := now }.expireCallers := if_pos hdue
    obtain ⟨callers, hframe, -⟩ := exists_expireCallers_eq { s with now := now }
    have hline : (s.apply (.pass now)).line = (s.line.expire now).1 := by rw [hnext, hframe]
    have hnow : (s.apply (.pass now)).now = now := by rw [hnext, hframe]
    have htimely : ∀ call ∈ (s.apply (.pass now)).line.waiting, call.tag = caller.tag →
        (s.apply (.pass now)).now < call.deadline := by
      rw [hline, hnow]
      exact fun call hcall _ => by simpa using (List.mem_filter.mp hcall).2
    by_cases hlate : ∃ call ∈ s.line.late now, call.tag = caller.tag
    · obtain ⟨call, hcall, htag⟩ := hlate
      obtain ⟨hwaiting, hover⟩ := Line.mem_late.mp hcall
      obtain ⟨deadline, hasked, rfl⟩ := h.eq_of_call (List.mem_append_left _ hwaiting) htag
      have hover : deadline ≤ (s.apply (.pass now)).now := by rwa [hnow]
      refine ⟨_, none, .late rfl ⟨_, hcall, rfl⟩ hasked ?_ hover, ?_, ?_, by simp, htimely⟩
      · rw [hnext, hframe]
        rfl
      · rw [hnext, expireCallers_eq]
        have hthere : ({ s with now := now, line := (s.line.expire now).1 } : State).caller?
            caller.tag = some { caller with phase := caller.phase } := h.there
        exact caller?_foldl_turnAway_self hthere haim ⟨_, hcall, rfl⟩
      · rw [hline]
        exact Line.callsOf_expire_self h.calls hcall
    · have hearly : ∀ call ∈ s.line.late now, call.tag ≠ caller.tag := fun call hcall htag =>
        hlate ⟨call, hcall, htag⟩
      refine heeds_others hlate (h.stay ?_ ?_ htimely)
      · rw [hnext, expireCallers_eq]
        exact caller?_foldl_turnAway_of_ne hearly
      · rw [hline, Line.callsOf_expire_of_early hearly]
  · have hnext : s.apply (.pass now) = s := if_neg hdue
    by_cases hown : s.Own caller.tag (.pass now)
    · exact h.heeds_vain hnext (by simp) (by simp)
    · refine heeds_others hown ?_
      rw [hnext]
      exact h

theorem heeds_apply (haim : caller.aim = .run) (move : Move) :
    s.Treats move caller deadline? := by
  cases move with
  | arrive job aim timeout => exact h.heeds_arrive job aim timeout
  | abandon tag => exact h.heeds_abandon tag
  | firstLook tag => exact h.heeds_firstLook haim tag
  | nextLook => exact h.heeds_nextLook haim
  | collect tag => exact h.heeds_collect tag
  | pass now => exact h.heeds_pass haim now
  | _ => exact h.heeds_aside rfl

-- Nobody looks any more who has an answer.
theorem not_looksUntil {answer : Answer} (hphase : caller.phase = .answered answer) :
    ¬ s.LooksUntil move caller deadline? deadline := by
  intro hlooks
  cases hlooks with
  | first _ hfresh _ _ => cases hfresh.symm.trans hphase
  | again _ _ hasked => cases (h.phase_of_asked hasked).symm.trans hphase

-- An answer is the last thing that a caller hears.
theorem answered_apply {answer : Answer} (haim : caller.aim = .run)
    (hphase : caller.phase = .answered answer) (move : Move) :
    (s.apply move).Stands caller deadline? := by
  obtain ⟨phase, until?, hheeds, hstands⟩ := h.heeds_apply haim move
  cases hheeds with
  | others _ => exact hstands
  | vain _ _ _ => exact hstands
  | unknown _ hfresh _ _ => cases hfresh.symm.trans hphase
  | panics _ _ _ hfresh _ => cases hfresh.symm.trans hphase
  | waits hlooks _ _ => exact absurd hlooks (h.not_looksUntil hphase)
  | refused hlooks _ _ => exact absurd hlooks (h.not_looksUntil hphase)
  | late _ _ hasked _ _ => cases (h.phase_of_asked hasked).symm.trans hphase
  | granted hlooks _ => exact absurd hlooks (h.not_looksUntil hphase)
  | collected _ hrunning _ _ => cases hrunning.symm.trans hphase
  | abandoned _ hopen _ => exact absurd hphase (hopen answer)

theorem answered_run {answer : Answer} (haim : caller.aim = .run)
    (hphase : caller.phase = .answered answer) (moves : List Move) :
    (s.run moves).Stands caller deadline? := by
  induction moves generalizing s with
  | nil => exact h
  | cons move moves ih => exact ih (h.answered_apply haim hphase move)

-- One whose job has a slot is turned away when it looks, as it gets none and does not wait.
theorem held_looks (haim : caller.aim = .run) {until? : Option Nat}
    (hlooks : s.LooksUntil move caller until? deadline) (hheld : caller.job ∈ s.gate.holders) :
    (s.apply move).Stands { caller with phase := .answered (.run none) } none := by
  have hmove := hlooks.move_cases
  obtain ⟨phase, until?, hheeds, hstands⟩ := h.heeds_apply haim move
  cases hheeds with
  | others hown => exact absurd hlooks.own hown
  | vain _ hfirst hagain =>
    cases hlooks with
    | first hmove hphase _ _ => exact absurd hmove (hfirst hphase)
    | again hmove _ _ => exact absurd hmove hagain
  | unknown hfirst _ hunknown _ =>
    cases hlooks with
    | first _ _ hknown _ => cases hunknown.symm.trans hknown
    | again hagain _ _ => cases hfirst.symm.trans hagain
  | panics hfirst _ hrange _ _ =>
    cases hlooks with
    | first _ _ _ htold => exact absurd htold hrange
    | again hagain _ _ => cases hfirst.symm.trans hagain
  | waits _ hfree _ => exact absurd hheld hfree
  | refused _ _ _ => exact hstands
  | late hpass _ _ _ _ => simp [hpass] at hmove
  | granted _ hseizes => exact absurd hheld (Gate.acquire?_eq_some_iff.mp hseizes.gate).1
  | collected hcollect _ _ _ => simp [hcollect] at hmove
  | abandoned habandon _ _ => simp [habandon] at hmove

-- The first look at a job that is not on record is the last one.
theorem unknown_firstLook (haim : caller.aim = .run) (hphase : caller.phase = .fresh)
    (hunknown : s.ledger.contains caller.job = false) : (s.apply (.firstLook caller.tag)).Stands
      { caller with phase := .answered (.refused (.notFound caller.job)) } none := by
  have hnolook : ∀ deadline, ¬ s.LooksUntil (.firstLook caller.tag) caller deadline? deadline := by
    intro deadline hlooks
    cases hlooks with
    | first _ _ hknown _ => cases hunknown.symm.trans hknown
    | again hagain _ _ => cases hagain
  obtain ⟨phase, until?, hheeds, hstands⟩ := h.heeds_apply haim (.firstLook caller.tag)
  cases hheeds with
  | others hown => exact absurd rfl hown
  | vain _ hfirst _ => exact absurd rfl (hfirst hphase)
  | unknown _ _ _ _ => exact hstands
  | panics _ hknown _ _ _ => cases hunknown.symm.trans hknown
  | waits hlooks _ _ => exact absurd hlooks (hnolook _)
  | refused hlooks _ _ => exact absurd hlooks (hnolook _)
  | late hpass _ _ _ _ => cases hpass
  | granted hlooks _ => exact absurd hlooks (hnolook _)
  | collected hcollect _ _ _ => cases hcollect
  | abandoned habandon _ _ => cases habandon

-- One who waits is turned away as soon as its time comes.
theorem late_pass (haim : caller.aim = .run) {now : Nat} (hown : s.Own caller.tag (.pass now))
    (hpasses : (s.apply (.pass now)).now = now) : (s.apply (.pass now)).Stands
      { caller with phase := .answered (.run none) } none := by
  obtain ⟨phase, until?, hheeds, hstands⟩ := h.heeds_apply haim (.pass now)
  cases hheeds with
  | others hother => exact absurd hown hother
  | vain hsame _ _ =>
    -- Nobody waits whose time has come already.
    obtain ⟨call, hcall, htag⟩ := hown
    obtain ⟨hwaiting, hdue⟩ := Line.mem_late.mp hcall
    have hearly := h.timely call hwaiting htag
    rw [hsame] at hpasses
    omega
  | unknown hfirst _ _ _ => cases hfirst
  | panics hfirst _ _ _ _ => cases hfirst
  | waits hlooks _ _ => simpa using hlooks.move_cases
  | refused hlooks _ _ => simpa using hlooks.move_cases
  | late _ _ _ _ _ => exact hstands
  | granted hlooks _ => simpa using hlooks.move_cases
  | collected hcollect _ _ _ => cases hcollect
  | abandoned habandon _ _ => cases habandon

theorem settles (haim : caller.aim = .run) {answer : Answer}
    (hsettles : s.Settles move caller answer) :
    (s.apply move).Stands { caller with phase := .answered answer } none := by
  cases hsettles with
  | unknown hmove hphase hunknown => exact hmove ▸ h.unknown_firstLook haim hphase hunknown
  | held hlooks hheld => exact h.held_looks haim hlooks hheld
  | late hmove hown hpasses =>
    subst hmove
    exact h.late_pass haim hown hpasses

-- Whoever waits has been told to look again, or has time left.
theorem awaits {deadline : Nat} (hasked : deadline? = some deadline) :
    (⟨caller.tag, caller.job, deadline⟩ : Call) ∈ s.line.woken ∨
      (⟨caller.tag, caller.job, deadline⟩ : Call) ∈ s.line.waiting ∧ s.now < deadline := by
  have hcalls := h.calls
  rw [hasked, Option.map_some, Option.toList_some] at hcalls
  have hmem : (⟨caller.tag, caller.job, deadline⟩ : Call) ∈ s.line.callsOf caller.tag :=
    hcalls ▸ List.mem_singleton_self _
  rcases List.mem_append.mp (List.mem_filter.mp hmem).1 with hwaiting | hwoken
  · exact .inr ⟨hwaiting, h.timely _ hwaiting rfl⟩
  · exact .inl hwoken

end Stands

-- No two callers ever have the same tag: each new one gets the next tag.
def Numbered (s : State) : Prop := ∀ caller ∈ s.callers, caller.tag < s.issued

theorem Numbered.of_tags (h : s.Numbered) (hissued : s.issued ≤ s'.issued)
    (htags : s'.callers.map Caller.tag = s.callers.map Caller.tag) : s'.Numbered := by
  intro caller hcaller
  have hmem : caller.tag ∈ s.callers.map Caller.tag := htags ▸ List.mem_map_of_mem hcaller
  obtain ⟨found, hfound, htag⟩ := List.mem_map.mp hmem
  exact htag ▸ (h found hfound).trans_le hissued

theorem Numbered.aside (h : s.Numbered) (haside : s.Aside s') : s'.Numbered :=
  h.of_tags haside.issued (congrArg _ haside.callers)

theorem tags_setCaller (s : State) (tag : Nat) (phase : Phase) :
    (s.setCaller tag phase).callers.map Caller.tag = s.callers.map Caller.tag := by
  simp only [setCaller, List.map_map]
  refine List.map_congr_left fun caller _ => ?_
  simp only [Function.comp_apply]
  split <;> rfl

theorem Numbered.setCaller (h : s.Numbered) (tag : Nat) (phase : Phase) :
    (s.setCaller tag phase).Numbered :=
  h.of_tags le_rfl (s.tags_setCaller tag phase)

theorem Numbered.hear (h : s.Numbered) (line : Line) (caller : Caller) (verdict : Verdict) :
    ({ s with line := line }.hear caller verdict).Numbered := by
  cases verdict with
  | granted =>
    simp only [State.hear]
    split
    · exact h.setCaller _ _
    · exact h.of_tags (Nat.le_succ _) (tags_setCaller { s with queue := _ } _ _)
  | refused => exact h.setCaller _ _
  | waits => exact h.setCaller _ _
  | panics => exact h.setCaller _ _

theorem Numbered.foldl_turnAway (h : s.Numbered) (calls : List Call) :
    (calls.foldl turnAway s).Numbered := by
  induction calls generalizing s with
  | nil => exact h
  | cons call calls ih =>
    refine ih ?_
    unfold turnAway
    split
    · exact h
    · exact h.hear s.line _ _

theorem Numbered.apply (h : s.Numbered) (move : Move) : (s.apply move).Numbered := by
  cases move with
  | arrive job aim timeout =>
    intro caller hcaller
    rcases List.mem_append.mp hcaller with hold | hnew
    · exact Nat.lt_succ_of_lt (h caller hold)
    · rw [List.mem_singleton.mp hnew]
      exact Nat.lt_succ_self _
  | abandon tag =>
    simp only [State.apply, abandon]
    split
    · exact h
    · split
      · exact h
      · exact h
      · have htags := tags_setCaller { s with line := s.line.withdraw tag } tag .abandoned
        exact h.of_tags le_rfl htags
  | firstLook tag =>
    simp only [State.apply, withCaller]
    split
    · rename_i caller _
      split
      · unfold firstLook
        split
        · exact h.setCaller _ _
        · rcases s.line.lookFirst s.now ⟨caller.tag, caller.job, s.now + caller.timeout⟩ with
            ⟨line, verdict⟩
          exact h.hear line caller verdict
      · exact h
    · exact h
  | nextLook =>
    simp only [State.apply, nextLook]
    split
    · exact h
    · split
      · exact h
      · exact h.hear _ _ _
  | collect tag =>
    simp only [State.apply, withCaller]
    split
    · split
      · split
        · exact h.setCaller _ _
        · exact h
      · exact h
    · exact h
  | pass now =>
    simp only [State.apply, pass]
    split
    · exact Numbered.foldl_turnAway (s := { s with now := now, line := (s.line.expire now).1 }) h _
    · exact h
  | _ => exact h.aside (s.aside_apply rfl)

theorem Numbered.run (h : s.Numbered) (moves : List Move) : (s.run moves).Numbered := by
  induction moves generalizing s with
  | nil => exact h
  | cons move moves ih => exact ih (h.apply move)

-- A new caller has not looked yet, and is not in front of the gate.
theorem stands_arrive (h : s.Numbered) (hknown : s.Known) (job : JobId) (aim : Aim)
    (timeout : Nat) : (s.apply (.arrive job aim timeout)).Stands
      ⟨s.issued, job, aim, timeout, .fresh⟩ none := by
  have hnew : s.callers.find? (fun caller => caller.tag == s.issued) = none := by
    rw [List.find?_eq_none]
    exact fun caller hcaller htag => absurd (beq_iff_eq.mp htag) (Nat.ne_of_lt (h caller hcaller))
  have hnone : s.line.callsOf s.issued = [] := by
    refine List.filter_eq_nil_iff.mpr fun call hcall htag => ?_
    obtain ⟨caller, hcaller, -⟩ := hknown call hcall
    rw [beq_iff_eq.mp htag, caller?, hnew] at hcaller
    cases hcaller
  refine ⟨?_, hnone, by simp, fun call hcall htag => absurd htag (not_mem_of_callsOf hnone hcall)⟩
  simp [caller?, State.apply, arrive, List.find?_append, hnew]

end State

end Engine

end Foreman
