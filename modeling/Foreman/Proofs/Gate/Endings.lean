import Foreman.Proofs.Gate.Accounting

namespace Foreman.Gate.Session

-- When a call will have waited as long as it wants to. Its time runs from its first turn.
def deadline? (s : Session) (tag timeout : Nat) : List Event → Option Nat
  | [] => none
  | event :: rest =>
    if event = .turn tag then some (s.now + timeout)
    else (s.happen event).deadline? tag timeout rest

-- What a call is told, and when. `due` is its deadline, which it has from its first turn on. One
-- whose deadline the clock cannot tell panics on that turn and leaves the line as it is.
structure EndsForCause (s : Session) (tag : Nat) (job : JobId) (timeout : Nat)
    (due : Option Nat) : Prop where
  granted : ∀ event, s.standing tag = .waiting → (s.happen event).standing tag = .ended true →
    event = .turn tag ∧ job ∉ s.line.gate.holders ∧ 0 < s.line.gate.free ∧
      (s.happen event).line.gate.holders = s.line.gate.holders ++ [job]
  refused : ∀ event, s.standing tag = .waiting → (s.happen event).standing tag = .ended false →
    event = .turn tag ∧ (job ∈ s.line.gate.holders ∨ due.getD (s.now + timeout) ≤ s.now)
  returned : s.IsSettled → s.standing tag ≠ .cancelled →
    ∃ time, due = some time ∧ (time ≤ s.now → ∃ answer, s.standing tag = .ended answer)
  first : due = none → s.standing tag = .waiting → Span.InRange (s.now + timeout) →
    job ∉ s.line.gate.holders → 0 < s.line.gate.free →
    (s.happen (.turn tag)).standing tag = .ended true
  panics : s.standing tag = .waiting →
    ((s.happen (.turn tag)).standing tag = .cancelled ↔
      due = none ∧ ¬ Span.InRange (s.now + timeout))
  spared : s.standing tag = .waiting → (s.happen (.turn tag)).standing tag = .cancelled →
    (s.happen (.turn tag)).line = s.line ∧
      (s.happen (.turn tag)).panicked = s.panicked ++ [tag]
  final : ∀ event answer, s.standing tag = .ended answer →
    (s.happen event).standing tag = .ended answer

-- Whoever waits too long has something to do.
def Punctual (s : Session) : Prop :=
  ∀ call ∈ s.line.waiting, call.deadline ≤ s.now → call.tag ∈ s.agenda

-- Nothing is left of a call but how it ended.
structure Gone (s : Session) (tag : Nat) : Prop where
  standing : s.standing tag ≠ .waiting
  fresh : ∀ request ∈ s.fresh, request.tag ≠ tag
  calls : ∀ call ∈ s.line.calls, call.tag ≠ tag

-- Where a call is, and its deadline if it has had its first turn.
inductive Whereabouts (s : Session) (tag : Nat) (job : JobId) (timeout : Nat) : Option Nat → Prop
  | fresh (hrequest : ⟨tag, job, timeout⟩ ∈ s.fresh) : Whereabouts s tag job timeout none
  | inLine {due : Nat} (hcall : ⟨tag, job, due⟩ ∈ s.line.calls) :
      Whereabouts s tag job timeout (some due)
  | gone {due : Nat} (hgone : s.Gone tag) : Whereabouts s tag job timeout (some due)

-- What holds between any two events of the calls, of the book and of the clock.
structure Orderly (s : Session) : Prop where
  tidy : s.Tidy
  booked : s.Booked
  punctual : s.Punctual

variable {s after : Session} {tag other : Nat} {job : JobId} {timeout : Nat} {due : Option Nat}
  {event : Event}

theorem orderly_start (capacity : Nat) : (start capacity).Orderly :=
  ⟨tidy_start capacity, booked_start capacity, by simp [Punctual, start, Line.ofGate]⟩

namespace Punctual

theorem after_turn (h : s.Punctual) {fresh : List Request} {line : Line} {verdict : Verdict}
    (hwaiting : ∀ call ∈ line.waiting, (call ∈ s.line.waiting ∧ call.tag ≠ tag) ∨
      s.now < call.deadline) :
    ((({ s with agenda := s.agenda.erase tag, fresh := fresh }).withLine line).note tag
      verdict).Punctual := by
  obtain ⟨hline, hagenda, -, -, hnow⟩ :=
    note_frame (({ s with agenda := s.agenda.erase tag, fresh := fresh }).withLine line) tag verdict
  unfold Punctual
  rw [hline, hagenda, hnow]
  intro call hcall hlate
  rcases hwaiting call hcall with ⟨hold, hne⟩ | hearly
  · exact (mem_agenda_withLine _ _ _).mpr
      (.inl ((List.mem_erase_of_ne hne).mpr (h call hold hlate)))
  · exact absurd hearly (Nat.not_lt_of_le hlate)

theorem after_look (h : s.Punctual) {fresh : List Request} {woken : List Call} {call : Call}
    {line : Line} {verdict : Verdict} (hne : ∀ other ∈ s.line.waiting, other.tag ≠ tag)
    (hlook : ({ s.line with woken := woken } : Line).look s.now call = (line, verdict)) :
    ((({ s with agenda := s.agenda.erase tag, fresh := fresh }).withLine line).note tag
      verdict).Punctual := by
  refine h.after_turn fun other hother => ?_
  obtain ⟨g, -, rfl, -⟩ | ⟨-, -, rfl, -⟩ | ⟨-, -, hearly, rfl, -⟩ := Line.look_cases hlook
  · exact .inl ⟨hother, hne other hother⟩
  · exact .inl ⟨hother, hne other hother⟩
  · rcases List.mem_append.mp hother with hold | hnew
    · exact .inl ⟨hold, hne other hold⟩
    · exact .inr (List.mem_singleton.mp hnew ▸ hearly)

theorem turn (h : s.Punctual) (ht : s.Tidy) (tag : Nat) :
    (({ s with agenda := s.agenda.erase tag } : Session).turn tag).Punctual := by
  have hleft : ∀ call ∈ (s.line.withdraw tag).waiting,
      (call ∈ s.line.waiting ∧ call.tag ≠ tag) ∨ s.now < call.deadline :=
    fun call hcall => .inl (Line.withdraw_waiting ht.calls_nodup hcall)
  rcases turn_cases { s with agenda := s.agenda.erase tag } tag with
    ⟨-, hturn⟩ | ⟨-, request, line, verdict, hrequest, htag, -, hlook, hturn⟩ |
    ⟨-, request, hrequest, htag, -, hturn⟩ |
    ⟨-, -, call, line, verdict, hcall, htag, hlook, hturn⟩ |
    ⟨-, -, -, ⟨-, hturn⟩ | ⟨hintime, hturn⟩⟩
  · -- given up
    rw [hturn]
    exact h.after_turn hleft
  · -- the first look
    rw [hturn]
    refine h.after_look (fun other hother => ?_) hlook
    exact htag ▸ (ht.fresh_tag_ne hrequest (List.mem_append_left _ hother)).symm
  · -- no time to wait for
    rw [hturn]
    exact h.after_turn fun other hother =>
      .inl ⟨hother, htag ▸ (ht.fresh_tag_ne hrequest (List.mem_append_left _ hother)).symm⟩
  · -- another look
    rw [hturn]
    exact after_look h (fun other hother => htag ▸ ht.waiting_tag_ne hother hcall) hlook
  · -- out of time
    rw [hturn]
    exact h.after_turn hleft
  · -- nothing to do
    rw [hturn]
    intro call hcall hlate
    have hne : call.tag ≠ tag := by
      rintro rfl
      simp only [isLate, Line.late, List.any_filter, List.any_eq_false] at hintime
      exact hintime call hcall (by simpa using hlate)
    exact (List.mem_erase_of_ne hne).mpr (h call hcall hlate)

theorem happen (h : s.Punctual) (ht : s.Tidy) (event : Event) : (s.happen event).Punctual := by
  cases event with
  | acquireNow job =>
    simp only [Session.happen, acquireNow, Line.acquire?]
    cases s.line.gate.acquire? job with
    | none => exact h
    | some g => exact h
  | release job =>
    simp only [Session.happen, release]
    cases hl : s.line.release? job with
    | none => exact h
    | some line =>
      obtain ⟨g, -, rfl⟩ := Line.release?_eq_some_iff.mp hl
      intro call hcall hlate
      have hold : call ∈ s.line.waiting := Line.wakeOne_waiting (l := { s.line with gate := g }) hcall
      exact (mem_agenda_withLine _ _ _).mpr (.inl (h call hold hlate))
  | spawn job timeout =>
    exact fun call hcall hlate => (mem_summon _ _ _).mpr (.inl (h call hcall hlate))
  | cancel tag => exact fun call hcall hlate => (mem_summon _ _ _).mpr (.inl (h call hcall hlate))
  | pass now =>
    simp only [Session.happen]
    split
    · intro call hcall hlate
      refine (mem_summon _ _ _).mpr (.inr (List.mem_map_of_mem ?_))
      exact List.mem_filter.mpr ⟨hcall, decide_eq_true hlate⟩
    · exact h
  | turn tag =>
    simp only [Session.happen]
    split
    · exact h.turn ht tag
    · exact h

end Punctual

theorem Orderly.happen (h : s.Orderly) (event : Event) : (s.happen event).Orderly :=
  ⟨h.tidy.happen event, h.booked.happen h.tidy event, h.punctual.happen h.tidy event⟩

theorem Orderly.runs (h : s.Orderly) (events : List Event) : (s.runs events).Orderly := by
  induction events generalizing s with
  | nil => exact h
  | cons event events ih => exact ih (h.happen event)

-- What becomes of a call by everything but its own turns. It can be given up, and that is all.
structure KeepsCall (s after : Session) (tag : Nat) : Prop where
  standing : after.standing tag = s.standing tag ∨
    s.standing tag = .waiting ∧ after.standing tag = .cancelled
  fresh : ∀ request : Request, request.tag = tag → (request ∈ after.fresh ↔ request ∈ s.fresh)
  calls : ∀ call : Call, call.tag = tag → (call ∈ after.line.calls ↔ call ∈ s.line.calls)

theorem KeepsCall.refl (s : Session) (tag : Nat) : s.KeepsCall s tag :=
  ⟨.inl rfl, fun _ _ => Iff.rfl, fun _ _ => Iff.rfl⟩

theorem Whereabouts.keep (h : s.Whereabouts tag job timeout due) (hkeeps : s.KeepsCall after tag) :
    after.Whereabouts tag job timeout due := by
  cases h with
  | fresh hrequest => exact .fresh ((hkeeps.fresh _ rfl).mpr hrequest)
  | inLine hcall => exact .inLine ((hkeeps.calls _ rfl).mpr hcall)
  | gone hgone =>
    refine .gone ⟨?_, ?_, ?_⟩
    · rcases hkeeps.standing with hsame | ⟨hwaiting, -⟩
      · exact hsame ▸ hgone.standing
      · exact absurd hwaiting hgone.standing
    · exact fun request hrequest htag =>
        hgone.fresh request ((hkeeps.fresh request htag).mp hrequest) htag
    · exact fun call hcall htag => hgone.calls call ((hkeeps.calls call htag).mp hcall) htag

-- The turn of another call.
theorem keepsCall_note {fresh : List Request} {line : Line} {verdict : Verdict}
    (hne : tag ≠ other)
    (hfresh : ∀ request : Request, request.tag = tag → (request ∈ fresh ↔ request ∈ s.fresh))
    (hcalls : ∀ call : Call, call.tag = tag → (call ∈ line.calls ↔ call ∈ s.line.calls)) :
    s.KeepsCall ((({ s with agenda := s.agenda.erase other, fresh := fresh }).withLine line).note
      other verdict) tag := by
  obtain ⟨hline, -, hfresh', -, -⟩ :=
    note_frame (({ s with agenda := s.agenda.erase other, fresh := fresh }).withLine line) other
      verdict
  refine ⟨.inl ?_, ?_, ?_⟩
  · cases verdict with
    | waits => rfl
    | granted | refused | panics => exact standing_close_of_ne hne
  · rw [hfresh']
    exact hfresh
  · rw [hline]
    exact hcalls

theorem keepsCall_look {fresh : List Request} {woken : List Call} {call : Call} {line : Line}
    {verdict : Verdict} (hne : tag ≠ other) (htag : call.tag = other)
    (hfresh : ∀ request : Request, request.tag = tag → (request ∈ fresh ↔ request ∈ s.fresh))
    (hwoken : ∀ call : Call, call.tag = tag → (call ∈ woken ↔ call ∈ s.line.woken))
    (hlook : ({ s.line with woken := woken } : Line).look s.now call = (line, verdict)) :
    s.KeepsCall ((({ s with agenda := s.agenda.erase other, fresh := fresh }).withLine line).note
      other verdict) tag := by
  refine keepsCall_note hne hfresh fun mine hmine => ?_
  have hother : mine ≠ call := fun he => hne (hmine ▸ he ▸ htag)
  obtain ⟨g, -, rfl, -⟩ | ⟨-, -, rfl, -⟩ | ⟨-, -, -, rfl, -⟩ := Line.look_cases hlook
  · simp only [Line.calls, List.mem_append, hwoken mine hmine]
  · simp only [Line.calls, List.mem_append, hwoken mine hmine]
  · simp only [Line.calls, List.mem_append, hwoken mine hmine, List.mem_singleton, hother, or_false]

theorem keepsCall_turn (h : s.Tidy) (hne : tag ≠ other) :
    s.KeepsCall (({ s with agenda := s.agenda.erase other } : Session).turn other) tag := by
  have hleft : ∀ call : Call, call.tag = tag →
      (call ∈ (s.line.withdraw other).calls ↔ call ∈ s.line.calls) := by
    intro call htag
    rw [(Line.withdraw_calls_perm h.calls_nodup).mem_iff, List.mem_filter]
    simp [htag, hne]
  have hdropped : ∀ request : Request, request.tag = tag →
      (request ∈ s.fresh.filter (fun request => request.tag != other) ↔ request ∈ s.fresh) := by
    intro request htag
    simp [List.mem_filter, htag, hne]
  rcases turn_cases { s with agenda := s.agenda.erase other } other with
    ⟨-, hturn⟩ | ⟨-, request, line, verdict, -, -, -, hlook, hturn⟩ | ⟨-, request, -, -, -, hturn⟩ |
    ⟨-, -, call, line, verdict, -, htag, hlook, hturn⟩ | ⟨-, -, -, ⟨-, hturn⟩ | ⟨-, hturn⟩⟩
  · -- given up
    rw [hturn]
    exact keepsCall_note hne hdropped hleft
  · -- the first look
    rw [hturn]
    exact keepsCall_look hne rfl hdropped (fun _ _ => Iff.rfl) hlook
  · -- no time to wait for
    rw [hturn]
    exact keepsCall_note hne hdropped fun _ _ => Iff.rfl
  · -- another look
    rw [hturn]
    refine keepsCall_look hne htag (fun _ _ => Iff.rfl) (fun mine hmine => ?_) hlook
    simp [List.mem_filter, hmine, htag, hne]
  · -- out of time
    rw [hturn]
    exact keepsCall_note hne (fun _ _ => Iff.rfl) hleft
  · -- nothing to do
    rw [hturn]
    exact ⟨.inl rfl, fun _ _ => Iff.rfl, fun _ _ => Iff.rfl⟩

theorem keepsCall_happen (h : s.Tidy) (hlt : tag < s.nextTag) (hne : event ≠ .turn tag) :
    s.KeepsCall (s.happen event) tag := by
  cases event with
  | acquireNow job =>
    simp only [happen, acquireNow, Line.acquire?]
    cases s.line.gate.acquire? job with
    | none => exact .refl s tag
    | some g => exact ⟨.inl rfl, fun _ _ => Iff.rfl, fun _ _ => Iff.rfl⟩
  | release job =>
    simp only [happen, release]
    cases hl : s.line.release? job with
    | none => exact .refl s tag
    | some line =>
      exact ⟨.inl rfl, fun _ _ => Iff.rfl, fun call _ => (Line.release?_calls hl).mem_iff⟩
  | spawn job timeout =>
    refine ⟨.inl (standing_spawn (Nat.ne_of_lt hlt)), fun request htag => ?_, fun _ _ => Iff.rfl⟩
    show request ∈ s.fresh ++ [(⟨s.nextTag, job, timeout⟩ : Request)] ↔ _
    have hother : request ≠ ⟨s.nextTag, job, timeout⟩ := by
      rintro rfl
      exact Nat.ne_of_lt hlt htag.symm
    simp [hother]
  | cancel other =>
    refine ⟨?_, fun _ _ => Iff.rfl, fun _ _ => Iff.rfl⟩
    show (s.close other .cancelled).standing tag = _ ∨ _ ∧ (s.close other .cancelled).standing tag = _
    by_cases htag : tag = other
    · subst htag
      by_cases hwaiting : s.standing tag = .waiting
      · rcases standing_close s tag tag .cancelled with hsame | ⟨-, hcancelled⟩
        · exact .inl hsame
        · exact .inr ⟨hwaiting, hcancelled⟩
      · exact .inl (standing_close_of_closed hwaiting)
    · exact .inl (standing_close_of_ne htag)
  | pass now =>
    simp only [happen]
    split
    · exact ⟨.inl rfl, fun _ _ => Iff.rfl, fun _ _ => Iff.rfl⟩
    · exact .refl s tag
  | turn other =>
    simp only [happen]
    split
    · exact keepsCall_turn h fun he => hne (congrArg Event.turn he.symm)
    · exact .refl s tag

-- What a turn is for a call with a given deadline.
inductive Turned (s after : Session) (tag : Nat) (job : JobId) (due : Nat) : Prop
  | cancelled (hbefore : s.standing tag = .cancelled) (hgone : after.Gone tag)
      (hstays : after.standing tag = .cancelled)
  | granted (hwaiting : s.standing tag = .waiting) (hgone : after.Gone tag)
      (hended : after.standing tag = .ended true)
      (hgate : s.line.gate.acquire? job = some after.line.gate)
  | refused (hwaiting : s.standing tag = .waiting) (hgone : after.Gone tag)
      (hended : after.standing tag = .ended false) (hnone : s.line.gate.acquire? job = none)
      (hcause : job ∈ s.line.gate.holders ∨ due ≤ s.now)
  | late (hwaiting : s.standing tag = .waiting) (hgone : after.Gone tag)
      (hended : after.standing tag = .ended false) (hlooked : ∀ request ∈ s.fresh, request.tag ≠ tag)
      (hlate : due ≤ s.now)
  | panicked {request : Request} (hwaiting : s.standing tag = .waiting) (hgone : after.Gone tag)
      (hstays : after.standing tag = .cancelled) (hrequest : request ∈ s.fresh)
      (htag : request.tag = tag) (hrange : ¬ Span.InRange due) (hline : after.line = s.line)
      (hpanicked : after.panicked = s.panicked ++ [tag])
  | waits (hwaiting : s.standing tag = .waiting) (hstill : after.standing tag = .waiting)
      (hnone : s.line.gate.acquire? job = none) (hcall : ⟨tag, job, due⟩ ∈ after.line.calls)
  | idle (hlooked : ∀ request ∈ s.fresh, request.tag ≠ tag) (hkeeps : s.KeepsCall after tag)
      (hsame : after.standing tag = s.standing tag)

namespace Turned

variable {time : Nat} (h : s.Turned after tag job time)

include h

theorem standing_of_closed (hclosed : s.standing tag ≠ .waiting) :
    after.standing tag = s.standing tag := by
  cases h with
  | cancelled hbefore _ hstays => exact hstays.trans hbefore.symm
  | idle _ _ hsame => exact hsame
  | granted hwaiting _ _ _ => exact absurd hwaiting hclosed
  | refused hwaiting _ _ _ _ => exact absurd hwaiting hclosed
  | late hwaiting _ _ _ _ => exact absurd hwaiting hclosed
  | panicked hwaiting _ _ _ _ _ _ _ => exact absurd hwaiting hclosed
  | waits hwaiting _ _ _ => exact absurd hwaiting hclosed

theorem acquire?_of_granted (hwaiting : s.standing tag = .waiting)
    (hended : after.standing tag = .ended true) :
    s.line.gate.acquire? job = some after.line.gate := by
  cases h with
  | granted _ _ _ hgate => exact hgate
  | cancelled _ _ hstays | panicked _ _ hstays _ _ _ _ _ => cases hended.symm.trans hstays
  | refused _ _ hrefused _ _ => cases hended.symm.trans hrefused
  | late _ _ hrefused _ _ => cases hended.symm.trans hrefused
  | waits _ hstill _ _ => cases hended.symm.trans hstill
  | idle _ _ hsame => cases hended.symm.trans (hsame.trans hwaiting)

theorem cause_of_refused (hwaiting : s.standing tag = .waiting)
    (hended : after.standing tag = .ended false) :
    job ∈ s.line.gate.holders ∨ time ≤ s.now := by
  cases h with
  | refused _ _ _ _ hcause => exact hcause
  | late _ _ _ _ hlate => exact .inr hlate
  | cancelled _ _ hstays | panicked _ _ hstays _ _ _ _ _ => cases hended.symm.trans hstays
  | granted _ _ hgranted _ => cases hended.symm.trans hgranted
  | waits _ hstill _ _ => cases hended.symm.trans hstill
  | idle _ _ hsame => cases hended.symm.trans (hsame.trans hwaiting)

-- Only who has looked before can be turned away without a look.
theorem granted_of_fresh {request : Request} (hrequest : request ∈ s.fresh)
    (htag : request.tag = tag) (hwaiting : s.standing tag = .waiting) (hrange : Span.InRange time)
    (hroom : s.line.gate.acquire? job ≠ none) : after.standing tag = .ended true := by
  cases h with
  | granted _ _ hended _ => exact hended
  | cancelled hcancelled _ _ => cases hwaiting.symm.trans hcancelled
  | refused _ _ _ hnone _ => exact absurd hnone hroom
  | waits _ _ hnone _ => exact absurd hnone hroom
  | panicked _ _ _ _ _ hnot _ _ => exact absurd hrange hnot
  | late _ _ _ hlooked _ => exact absurd htag (hlooked request hrequest)
  | idle hlooked _ _ => exact absurd htag (hlooked request hrequest)

-- A call that waits is over without an answer only if its deadline cannot be told.
theorem panicked_of_cancelled (hwaiting : s.standing tag = .waiting)
    (hover : after.standing tag = .cancelled) :
    (∃ request ∈ s.fresh, request.tag = tag) ∧ ¬ Span.InRange time ∧ after.line = s.line ∧
      after.panicked = s.panicked ++ [tag] := by
  cases h with
  | panicked _ _ _ hrequest htag hrange hline hpanicked =>
    exact ⟨⟨_, hrequest, htag⟩, hrange, hline, hpanicked⟩
  | cancelled hcancelled _ _ => cases hwaiting.symm.trans hcancelled
  | granted _ _ hended _ => cases hover.symm.trans hended
  | refused _ _ hended _ _ => cases hover.symm.trans hended
  | late _ _ hended _ _ => cases hover.symm.trans hended
  | waits _ hstill _ _ => cases hover.symm.trans hstill
  | idle _ _ hsame => cases hover.symm.trans (hsame.trans hwaiting)

end Turned

theorem gone_note {fresh : List Request} {line : Line} {verdict : Verdict}
    (hfresh : ∀ request ∈ fresh, request.tag ≠ tag) (hcalls : ∀ call ∈ line.calls, call.tag ≠ tag)
    (hstanding : ((({ s with agenda := s.agenda.erase tag, fresh := fresh }).withLine line).note tag
      verdict).standing tag ≠ .waiting) :
    ((({ s with agenda := s.agenda.erase tag, fresh := fresh }).withLine line).note tag
      verdict).Gone tag := by
  obtain ⟨hline, -, hfresh', -, -⟩ :=
    note_frame (({ s with agenda := s.agenda.erase tag, fresh := fresh }).withLine line) tag verdict
  refine ⟨hstanding, ?_, ?_⟩
  · rw [hfresh']
    exact hfresh
  · rw [hline]
    exact hcalls

theorem turned_look {fresh : List Request} {woken : List Call} {line : Line} {verdict : Verdict}
    {due : Nat} (hopen : s.IsOpen tag) (hstanding : s.standing tag ≠ .cancelled)
    (hfresh : ∀ request ∈ fresh, request.tag ≠ tag)
    (hcalls : ∀ call ∈ s.line.waiting ++ woken, call.tag ≠ tag)
    (hlook : ({ s.line with woken := woken } : Line).look s.now ⟨tag, job, due⟩ = (line, verdict)) :
    s.Turned ((({ s with agenda := s.agenda.erase tag, fresh := fresh }).withLine line).note tag
      verdict) tag job due := by
  have hwaiting : s.standing tag = .waiting := hopen.2.resolve_right hstanding
  have hended : ∀ standing, ((({ s with agenda := s.agenda.erase tag, fresh := fresh }).withLine
      line).close tag standing).standing tag = standing :=
    fun _ => standing_close_self hopen.1 hwaiting
  obtain ⟨g, hg, rfl, rfl⟩ | ⟨hnone, hcause, rfl, rfl⟩ | ⟨hnone, -, -, rfl, rfl⟩ :=
    Line.look_cases hlook
  · refine .granted hwaiting (gone_note hfresh hcalls ?_) (hended _) hg
    rw [note, hended]
    decide
  · refine .refused hwaiting (gone_note hfresh hcalls ?_) (hended _) hnone hcause
    rw [note, hended]
    decide
  · refine .waits hwaiting hwaiting hnone (List.mem_append_left _ ?_)
    exact List.mem_append_right _ (List.mem_singleton_self _)

namespace Orderly

variable (h : s.Orderly)

include h

theorem withdraw_tag_ne {call : Call} (hcall : call ∈ (s.line.withdraw tag).calls) :
    call.tag ≠ tag := by
  rw [(Line.withdraw_calls_perm h.tidy.calls_nodup).mem_iff, List.mem_filter] at hcall
  simpa using hcall.2

-- A call has one place, and one deadline.
theorem eq_of_fresh (hplace : s.Whereabouts tag job timeout due) {request : Request}
    (hrequest : request ∈ s.fresh) (htag : request.tag = tag) :
    request = ⟨tag, job, timeout⟩ ∧ due = none := by
  cases hplace with
  | fresh hmine => exact ⟨List.inj_on_of_nodup_map h.tidy.fresh_nodup hrequest hmine htag, rfl⟩
  | inLine hcall => exact absurd htag (h.tidy.fresh_tag_ne hrequest hcall)
  | gone hgone => exact absurd htag (hgone.fresh request hrequest)

theorem due_of_mem_calls (hplace : s.Whereabouts tag job timeout due) {call : Call}
    (hcall : call ∈ s.line.calls) (htag : call.tag = tag) :
    call = ⟨tag, job, call.deadline⟩ ∧ due = some call.deadline := by
  cases hplace with
  | fresh hrequest => exact absurd htag.symm (h.tidy.fresh_tag_ne hrequest hcall)
  | inLine hmine =>
    obtain rfl := List.inj_on_of_nodup_map h.tidy.calls_nodup hcall hmine htag
    exact ⟨rfl, rfl⟩
  | gone hgone => exact absurd htag (hgone.calls call hcall)

theorem turned_of_mem (hplace : s.Whereabouts tag job timeout due) (hagenda : tag ∈ s.agenda) :
    s.Turned (s.happen (.turn tag)) tag job (due.getD (s.now + timeout)) := by
  have hhappen : s.happen (.turn tag) =
      ({ s with agenda := s.agenda.erase tag } : Session).turn tag := if_pos hagenda
  have hleft : ∀ call ∈ (s.line.withdraw tag).calls, call.tag ≠ tag :=
    fun call hcall => h.withdraw_tag_ne hcall
  have hdropped : ∀ request ∈ s.fresh.filter (fun request => request.tag != tag),
      request.tag ≠ tag := fun request hrequest => by simpa using (List.mem_filter.mp hrequest).2
  rw [hhappen]
  rcases turn_cases { s with agenda := s.agenda.erase tag } tag with
    ⟨hcancelled, hturn⟩ | ⟨hstanding, request, line, verdict, hrequest, htag, -, hlook, hturn⟩ |
    ⟨hstanding, request, hrequest, htag, hrange, hturn⟩ |
    ⟨hstanding, hfresh, call, line, verdict, hcall, htag, hlook, hturn⟩ |
    ⟨hstanding, hfresh, hwoken, ⟨hlate, hturn⟩ | ⟨-, hturn⟩⟩
  · -- given up
    have hclosed : s.standing tag ≠ .waiting := by
      rw [show s.standing tag = .cancelled from hcancelled]
      decide
    rw [hturn]
    have hstays : ((({ s with
        agenda := s.agenda.erase tag
        fresh := s.fresh.filter (fun request => request.tag != tag) } : Session).withLine
        (s.line.withdraw tag)).note tag .refused).standing tag = .cancelled :=
      (standing_close_of_closed hclosed).trans hcancelled
    refine .cancelled hcancelled (gone_note (s := s) hdropped hleft fun hwaiting => ?_) hstays
    exact absurd (hstays.symm.trans hwaiting) (by decide)
  · -- the first look
    obtain ⟨rfl, rfl⟩ := h.eq_of_fresh hplace hrequest htag
    rw [hturn]
    refine turned_look (h.booked.fresh _ hrequest) hstanding hdropped ?_ hlook
    exact fun call hcall => (h.tidy.fresh_tag_ne hrequest hcall).symm
  · -- no time to wait for
    obtain ⟨rfl, rfl⟩ := h.eq_of_fresh hplace hrequest htag
    have hopen : s.IsOpen tag := h.booked.fresh _ hrequest
    have hwaiting : s.standing tag = .waiting := hopen.2.resolve_right hstanding
    have hstays : ((({ s with
        agenda := s.agenda.erase tag
        fresh := s.fresh.filter (fun request => request.tag != tag) } : Session).withLine
        s.line).close tag .cancelled).standing tag = .cancelled :=
      standing_close_self hopen.1 hwaiting
    rw [hturn]
    refine .panicked hwaiting (gone_note (s := s) hdropped ?_ ?_) hstays hrequest rfl hrange rfl rfl
    · exact fun call hcall => (h.tidy.fresh_tag_ne hrequest hcall).symm
    · exact fun hstill => absurd (hstays.symm.trans hstill) (by decide)
  · -- another look
    have hmem : call ∈ s.line.calls := List.mem_append_right _ hcall
    obtain ⟨hmine, rfl⟩ := h.due_of_mem_calls hplace hmem htag
    rw [hmine] at hlook
    rw [hturn]
    refine turned_look (htag ▸ h.booked.calls call hmem) hstanding hfresh ?_ hlook
    intro other hother
    rcases List.mem_append.mp hother with hwaiting | hwoken
    · exact htag ▸ h.tidy.waiting_tag_ne hwaiting hcall
    · simpa using (List.mem_filter.mp hwoken).2
  · -- out of time
    simp only [isLate, Line.late, List.any_filter, List.any_eq_true, Bool.and_eq_true,
      decide_eq_true_eq, beq_iff_eq] at hlate
    obtain ⟨call, hcall, hpast, htag⟩ := hlate
    have hmem : call ∈ s.line.calls := List.mem_append_left _ hcall
    obtain ⟨-, rfl⟩ := h.due_of_mem_calls hplace hmem htag
    have hopen : s.IsOpen tag := htag ▸ h.booked.calls call hmem
    have hwaiting : s.standing tag = .waiting := hopen.2.resolve_right hstanding
    have hended : ((({ s with agenda := s.agenda.erase tag } : Session).withLine
        (s.line.withdraw tag)).close tag (.ended false)).standing tag = .ended false :=
      standing_close_self hopen.1 hwaiting
    rw [hturn]
    refine .late hwaiting (gone_note (s := s) hfresh hleft ?_) hended hfresh hpast
    rw [note, hended]
    decide
  · -- nothing to do
    rw [hturn]
    exact .idle hfresh ⟨.inl rfl, fun _ _ => Iff.rfl, fun _ _ => Iff.rfl⟩ rfl

end Orderly

variable {answer : Bool}

namespace Whereabouts

-- A turn leaves a call with the deadline that it had, or that it got on this turn.
theorem turned {time : Nat} (hplace : s.Whereabouts tag job timeout due)
    (h : s.Turned after tag job (due.getD time)) :
    after.Whereabouts tag job timeout (some (due.getD time)) := by
  cases h with
  | cancelled _ hgone _ => exact .gone hgone
  | granted _ hgone _ _ => exact .gone hgone
  | refused _ hgone _ _ _ => exact .gone hgone
  | late _ hgone _ _ _ => exact .gone hgone
  | panicked _ hgone _ _ _ _ _ _ => exact .gone hgone
  | waits _ _ _ hcall => exact .inLine hcall
  | idle hlooked hkeeps _ =>
    have hkept := hplace.keep hkeeps
    cases hplace with
    | fresh hrequest => exact absurd rfl (hlooked _ hrequest)
    | inLine _ => exact hkept
    | gone _ => exact hkept

theorem lt_nextTag (hplace : s.Whereabouts tag job timeout due) (h : s.Tidy) :
    tag < s.nextTag := by
  cases hplace with
  | fresh hrequest => exact h.fresh_lt _ hrequest
  | inLine hcall => exact h.calls_lt _ hcall
  | gone hgone =>
    cases hfind : s.book.find? (fun entry => entry.1 == tag) with
    | none => exact absurd (by simp [Session.standing, hfind]) hgone.standing
    | some entry =>
      have htag : entry.1 = tag := by simpa using List.find?_some hfind
      exact htag ▸ h.book_lt entry (List.mem_of_find?_eq_some hfind)

theorem mem_agenda_or_due (hplace : s.Whereabouts tag job timeout due) (h : s.Tidy) :
    tag ∈ s.agenda ∨ due.isSome = true := by
  cases hplace with
  | fresh hrequest => exact .inl (h.fresh_due _ hrequest)
  | inLine _ => exact .inr rfl
  | gone _ => exact .inr rfl

theorem happen (hplace : s.Whereabouts tag job timeout due) (h : s.Orderly) (event : Event) :
    (s.happen event).Whereabouts tag job timeout
      (due.or (if event = .turn tag then some (s.now + timeout) else none)) := by
  by_cases hturn : event = .turn tag
  · subst hturn
    rw [if_pos rfl]
    have hdue : due.or (some (s.now + timeout)) = some (due.getD (s.now + timeout)) := by
      cases due <;> rfl
    rw [hdue]
    by_cases hagenda : tag ∈ s.agenda
    · exact hplace.turned (h.turned_of_mem hplace hagenda)
    · have hsame : s.happen (.turn tag) = s := if_neg hagenda
      obtain ⟨time, rfl⟩ := Option.isSome_iff_exists.mp
        ((hplace.mem_agenda_or_due h.tidy).resolve_left hagenda)
      rw [hsame]
      exact hplace
  · rw [if_neg hturn, Option.or_none]
    exact hplace.keep (keepsCall_happen h.tidy (hplace.lt_nextTag h.tidy) hturn)

theorem runs (hplace : s.Whereabouts tag job timeout due) (h : s.Orderly) (events : List Event) :
    (s.runs events).Whereabouts tag job timeout (due.or (s.deadline? tag timeout events)) := by
  induction events generalizing s due with
  | nil => simpa [deadline?, Session.runs] using hplace
  | cons event rest ih =>
    have hrest := ih (hplace.happen h event) (h.happen event)
    rw [Option.or_assoc] at hrest
    have hdeadline : s.deadline? tag timeout (event :: rest) =
        (if event = .turn tag then some (s.now + timeout) else none).or
          ((s.happen event).deadline? tag timeout rest) := by
      rw [deadline?]
      split
      · rfl
      · rfl
    rw [hdeadline]
    exact hrest

-- An answer comes on a turn of the call itself.
theorem turned_of_ended (hplace : s.Whereabouts tag job timeout due) (h : s.Orderly)
    (hwaiting : s.standing tag = .waiting)
    (hended : (s.happen event).standing tag = .ended answer) :
    event = .turn tag ∧
      s.Turned (s.happen (.turn tag)) tag job (due.getD (s.now + timeout)) := by
  by_cases hturn : event = .turn tag
  · subst hturn
    by_cases hagenda : tag ∈ s.agenda
    · exact ⟨rfl, h.turned_of_mem hplace hagenda⟩
    · have hsame : s.happen (.turn tag) = s := if_neg hagenda
      rw [hsame, hwaiting] at hended
      cases hended
  · rcases (keepsCall_happen h.tidy (hplace.lt_nextTag h.tidy) hturn).standing with
      hsame | ⟨-, hcancelled⟩
    · rw [hsame, hwaiting] at hended
      cases hended
    · rw [hcancelled] at hended
      cases hended

theorem returned_of_isSettled (hplace : s.Whereabouts tag job timeout due) (h : s.Orderly)
    (hsettled : s.IsSettled) (hstanding : s.standing tag ≠ .cancelled) :
    ∃ time, due = some time ∧ (time ≤ s.now → ∃ answer, s.standing tag = .ended answer) := by
  cases hplace with
  | fresh hrequest =>
    rw [h.tidy.fresh_eq_nil hsettled] at hrequest
    cases hrequest
  | @inLine time hcall =>
    refine ⟨time, rfl, fun hlate => ?_⟩
    have hagenda : tag ∈ s.agenda := by
      rcases List.mem_append.mp hcall with hwaiting | hwoken
      · exact h.punctual _ hwaiting hlate
      · exact h.tidy.woken_due _ hwoken
    rw [show s.agenda = [] from hsettled] at hagenda
    cases hagenda
  | @gone time hgone =>
    refine ⟨time, rfl, fun _ => ?_⟩
    cases hcase : s.standing tag with
    | waiting => exact absurd hcase hgone.standing
    | cancelled => exact absurd hcase hstanding
    | ended answer => exact ⟨answer, rfl⟩

theorem granted_at_first (hplace : s.Whereabouts tag job timeout none) (h : s.Orderly)
    (hwaiting : s.standing tag = .waiting) (hrange : Span.InRange (s.now + timeout))
    (hout : job ∉ s.line.gate.holders)
    (hfree : 0 < s.line.gate.free) : (s.happen (.turn tag)).standing tag = .ended true := by
  have hroom : s.line.gate.acquire? job ≠ none := by
    rw [ne_eq, Gate.acquire?_eq_none_iff, Gate.holds_iff]
    rintro (hheld | hfull)
    · exact hout hheld
    · exact absurd hfull (Nat.not_le_of_lt (Nat.lt_of_sub_pos hfree))
  have hagenda : tag ∈ s.agenda := (hplace.mem_agenda_or_due h.tidy).resolve_right (by simp)
  have hturned := h.turned_of_mem hplace hagenda
  cases hplace with
  | fresh hrequest => exact hturned.granted_of_fresh hrequest rfl hwaiting hrange hroom

theorem cancelled_of_not_inRange (hplace : s.Whereabouts tag job timeout none) (h : s.Orderly)
    (hwaiting : s.standing tag = .waiting) (hrange : ¬ Span.InRange (s.now + timeout)) :
    (s.happen (.turn tag)).standing tag = .cancelled := by
  have hnot : s.standing tag ≠ .cancelled := by simp [hwaiting]
  cases hplace with
  | fresh hrequest =>
    have hagenda : tag ∈ s.agenda := h.tidy.fresh_due _ hrequest
    have hfind : s.fresh.find? (fun request => request.tag == tag) = some ⟨tag, job, timeout⟩ :=
      Keyed.find?_key h.tidy.fresh_nodup hrequest
    have hlook : s.line.lookFirst s.now ⟨tag, job, s.now + timeout⟩ = (s.line, .panics) :=
      if_neg hrange
    have hturn : s.happen (.turn tag) = ((({ s with agenda := s.agenda.erase tag } :
        Session).dropRequest tag).withLine s.line).note tag .panics := by
      rw [Session.happen, if_pos hagenda]
      simp only [turn, hfind, hlook]
      exact if_neg hnot
    rw [hturn]
    exact standing_close_self (h.booked.fresh _ hrequest).1 hwaiting

-- On its own turn a call that waits panics, or stays as it is where it has none.
theorem panicked_of_cancelled (hplace : s.Whereabouts tag job timeout due) (h : s.Orderly)
    (hwaiting : s.standing tag = .waiting)
    (hover : (s.happen (.turn tag)).standing tag = .cancelled) :
    (due = none ∧ ¬ Span.InRange (s.now + timeout)) ∧ (s.happen (.turn tag)).line = s.line ∧
      (s.happen (.turn tag)).panicked = s.panicked ++ [tag] := by
  by_cases hagenda : tag ∈ s.agenda
  · obtain ⟨⟨request, hrequest, htag⟩, hrange, hkept⟩ :=
      (h.turned_of_mem hplace hagenda).panicked_of_cancelled hwaiting hover
    obtain ⟨-, rfl⟩ := h.eq_of_fresh hplace hrequest htag
    exact ⟨⟨rfl, hrange⟩, hkept⟩
  · rw [show s.happen (.turn tag) = s from if_neg hagenda, hwaiting] at hover
    cases hover

theorem standing_of_ended (hplace : s.Whereabouts tag job timeout due) (h : s.Orderly)
    (hended : s.standing tag = .ended answer) (event : Event) :
    (s.happen event).standing tag = .ended answer := by
  have hclosed : s.standing tag ≠ .waiting := by simp [hended]
  by_cases hturn : event = .turn tag
  · subst hturn
    by_cases hagenda : tag ∈ s.agenda
    · exact ((h.turned_of_mem hplace hagenda).standing_of_closed hclosed).trans hended
    · rw [show s.happen (.turn tag) = s from if_neg hagenda]
      exact hended
  · rcases (keepsCall_happen h.tidy (hplace.lt_nextTag h.tidy) hturn).standing with
      hsame | ⟨hwaiting, -⟩
    · exact hsame.trans hended
    · exact absurd hwaiting hclosed

theorem endsForCause (hplace : s.Whereabouts tag job timeout due) (h : s.Orderly) :
    s.EndsForCause tag job timeout due where
  granted := by
    intro event hwaiting hended
    obtain ⟨rfl, hturned⟩ := hplace.turned_of_ended h hwaiting hended
    obtain ⟨hout, hroom, hafter⟩ :=
      Gate.acquire?_eq_some_iff.mp (hturned.acquire?_of_granted hwaiting hended)
    refine ⟨rfl, hout, Nat.sub_pos_of_lt hroom, ?_⟩
    rw [hafter]
  refused := by
    intro event hwaiting hended
    obtain ⟨rfl, hturned⟩ := hplace.turned_of_ended h hwaiting hended
    exact ⟨rfl, hturned.cause_of_refused hwaiting hended⟩
  returned := hplace.returned_of_isSettled h
  first := by
    rintro rfl
    exact hplace.granted_at_first h
  panics := by
    refine fun hwaiting => ⟨fun hover => (hplace.panicked_of_cancelled h hwaiting hover).1, ?_⟩
    rintro ⟨rfl, hrange⟩
    exact hplace.cancelled_of_not_inRange h hwaiting hrange
  spared := fun hwaiting hover => (hplace.panicked_of_cancelled h hwaiting hover).2
  final := fun event _ hended => hplace.standing_of_ended h hended event

end Whereabouts

-- However calls, turns and the passing of time are interleaved, a call is told that it has a slot
-- when it gets one, and that it has none when its job has one or its time is up. Only a call whose
-- time the clock cannot tell is told nothing.
theorem ends_for_cause (capacity : Nat) (earlier later : List Event) (job : JobId)
    (timeout : Nat) :
    let asking := (start capacity).runs earlier
    let asked := asking.happen (.spawn job timeout)
    (asked.runs later).EndsForCause asking.nextTag job timeout
      (asked.deadline? asking.nextTag timeout later) := by
  intro asking asked
  have hasked : asked.Orderly := ((orderly_start capacity).runs earlier).happen _
  have hplace : asked.Whereabouts asking.nextTag job timeout none :=
    .fresh (List.mem_append_right _ (List.mem_singleton_self _))
  exact (hplace.runs hasked later).endsForCause (hasked.runs later)

-- A slot is free, and the call that asks for it does not get it, because it would wait for longer
-- than the clock can tell.
theorem panicked_of_endless : ∃ timeout,
    ((start 1).runs [.spawn ⟨1⟩ timeout]).standing 0 = .waiting ∧
      ⟨1⟩ ∉ ((start 1).runs [.spawn ⟨1⟩ timeout]).line.gate.holders ∧
      0 < ((start 1).runs [.spawn ⟨1⟩ timeout]).line.gate.free ∧
      ((start 1).runs [.spawn ⟨1⟩ timeout, .turn 0]).standing 0 = .cancelled ∧
      ((start 1).runs [.spawn ⟨1⟩ timeout, .turn 0]).panicked = [0] := by
  refine ⟨Span.maxSecs * 1000, ?_, ?_, ?_, ?_, ?_⟩
  · decide
  · decide
  · decide
  · decide
  · decide

-- Without any time to wait, a call still takes a slot that is free, and gives up where none is.
example : ((start 1).runs [.spawn ⟨1⟩ 0, .turn 0, .spawn ⟨2⟩ 0, .turn 1]).book =
    [(0, .ended true), (1, .ended false)] := by decide

end Foreman.Gate.Session
