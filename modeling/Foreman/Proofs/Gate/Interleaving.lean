import Foreman.Gate.Session
import Foreman.Proofs.Gate.Slots
import Foreman.Proofs.Keyed

namespace Foreman.Gate.Session

-- What can happen to a gate and the calls in front of it, one thing at a time. Calls with
-- something to do have their turns in any order, and time may pass in between.
inductive Event where
  | acquireNow (job : JobId)
  | release (job : JobId)
  | spawn (job : JobId) (timeout : Nat)
  | cancel (tag : Nat)
  | pass (now : Nat)
  | turn (tag : Nat)
  deriving DecidableEq, Repr

-- What an event makes of a session. The clock does not go back, and a call with nothing to do
-- has no turn.
def happen (s : Session) : Event → Session
  | .acquireNow job => (s.acquireNow job).2
  | .release job => (s.release job).2
  | .spawn job timeout => (s.spawn job timeout).2
  | .cancel tag => s.cancel tag
  | .pass now => if s.now ≤ now then s.arriveAt now else s
  | .turn tag => if tag ∈ s.agenda then { s with agenda := s.agenda.erase tag }.turn tag else s

def runs (s : Session) (events : List Event) : Session := events.foldl happen s

theorem runs_append (s : Session) (first second : List Event) :
    s.runs (first ++ second) = (s.runs first).runs second := by
  simp [runs]

theorem exists_settleWithin_eq_runs (fuel : Nat) (s : Session) :
    ∃ turns, settleWithin fuel s = s.runs turns := by
  induction fuel generalizing s with
  | zero => exact ⟨[], rfl⟩
  | succ fuel ih =>
    unfold settleWithin
    cases hagenda : s.agenda with
    | nil => exact ⟨[], rfl⟩
    | cons tag rest =>
      obtain ⟨turns, hturns⟩ := ih (({ s with agenda := rest } : Session).turn tag)
      have hfirst : s.happen (.turn tag) = ({ s with agenda := rest } : Session).turn tag := by
        simp [happen, hagenda]
      refine ⟨.turn tag :: turns, hturns.trans ?_⟩
      rw [← hfirst]
      rfl

def IsSettled (s : Session) : Prop := s.agenda = []

-- What holds between any two events: the gate's books are right, no tag is used twice, and
-- every call that has something to do is on the agenda.
structure Tidy (s : Session) : Prop where
  sound : s.line.gate.Sound
  tags : (s.fresh.map Request.tag ++ s.line.calls.map Call.tag).Nodup
  fresh_lt : ∀ request ∈ s.fresh, request.tag < s.nextTag
  calls_lt : ∀ call ∈ s.line.calls, call.tag < s.nextTag
  book_lt : ∀ entry ∈ s.book, entry.1 < s.nextTag
  woken_due : ∀ call ∈ s.line.woken, call.tag ∈ s.agenda
  fresh_due : ∀ request ∈ s.fresh, request.tag ∈ s.agenda
  cancelled_due : ∀ call ∈ s.line.waiting, s.standing call.tag = .cancelled → call.tag ∈ s.agenda

theorem tidy_start (capacity : Nat) : (start capacity).Tidy where
  sound := sound_ofCapacity capacity
  tags := List.nodup_nil
  fresh_lt := by simp [start]
  calls_lt := by simp [start, Line.ofGate, Line.calls]
  book_lt := by simp [start]
  woken_due := by simp [start, Line.ofGate]
  fresh_due := by simp [start]
  cancelled_due := by simp [start, Line.ofGate]

theorem mem_summon (s : Session) (tags : List Nat) (tag : Nat) :
    tag ∈ (s.summon tags).agenda ↔ tag ∈ s.agenda ∨ tag ∈ tags := by
  simp only [summon, List.mem_append, List.mem_filter, Bool.not_eq_true', List.contains_eq_mem,
    decide_eq_false_iff_not]
  tauto

theorem mem_agenda_withLine (s : Session) (line : Line) (tag : Nat) :
    tag ∈ (s.withLine line).agenda ↔ tag ∈ s.agenda ∨ ∃ call ∈ line.woken, call.tag = tag := by
  simp [withLine, mem_summon]

-- An entry that is closed stays where it is in the book.
theorem find?_close (s : Session) (tag other : Nat) (standing : Standing) :
    (s.close tag standing).book.find? (fun entry => entry.1 == other) =
      (s.book.find? (fun entry => entry.1 == other)).map fun entry =>
        if entry.1 = tag ∧ entry.2 = .waiting then (tag, standing) else entry := by
  have hkey : ∀ entry : Nat × Standing,
      (if entry.1 = tag ∧ entry.2 = .waiting then (tag, standing) else entry).1 = entry.1 := by
    intro entry
    split <;> simp_all
  simp only [close, List.find?_map, Function.comp_def, hkey]

theorem standing_close (s : Session) (tag other : Nat) (standing : Standing) :
    (s.close tag standing).standing other = s.standing other ∨
      (other = tag ∧ (s.close tag standing).standing other = standing) := by
  simp only [Session.standing, find?_close]
  cases hfind : s.book.find? (fun entry => entry.1 == other) with
  | none => exact .inl rfl
  | some entry =>
    have hother : entry.1 = other := by simpa using List.find?_some hfind
    by_cases hclosed : entry.1 = tag ∧ entry.2 = .waiting
    · exact .inr ⟨hother ▸ hclosed.1, by simp [hclosed]⟩
    · exact .inl (by simp [hclosed])

theorem book_close_lt {s : Session} {bound : Nat} (h : ∀ entry ∈ s.book, entry.1 < bound)
    (tag : Nat) (standing : Standing) : ∀ entry ∈ (s.close tag standing).book, entry.1 < bound := by
  intro entry hentry
  obtain ⟨old, hold, rfl⟩ := List.mem_map.mp hentry
  split
  · rename_i hclosed
    exact hclosed.1 ▸ h old hold
  · exact h old hold

theorem cancelled_of_note {s : Session} {tag other : Nat} {verdict : Verdict}
    (h : (s.note tag verdict).standing other = .cancelled) :
    s.standing other = .cancelled ∨ (other = tag ∧ verdict = .panics) := by
  cases verdict with
  | waits => exact .inl h
  | granted | refused =>
    rcases standing_close s tag other _ with he | ⟨-, he⟩
    · exact .inl (he ▸ h)
    · simp [note, he] at h
  | panics =>
    rcases standing_close s tag other .cancelled with he | ⟨htag, -⟩
    · exact .inl (he ▸ h)
    · exact .inr ⟨htag, rfl⟩

theorem note_frame (s : Session) (tag : Nat) (verdict : Verdict) :
    (s.note tag verdict).line = s.line ∧ (s.note tag verdict).agenda = s.agenda ∧
      (s.note tag verdict).fresh = s.fresh ∧ (s.note tag verdict).nextTag = s.nextTag ∧
      (s.note tag verdict).now = s.now := by
  cases verdict <;> exact ⟨rfl, rfl, rfl, rfl, rfl⟩

-- A turn takes a call off the agenda. Then the call leaves the line, looks for the first time,
-- panics before it does so, looks again, or finds nothing to do.
theorem turn_cases (s : Session) (tag : Nat) :
    (s.standing tag = .cancelled ∧ s.turn tag = (s.dropRequest tag).leave tag) ∨
    (s.standing tag ≠ .cancelled ∧ ∃ request line verdict, request ∈ s.fresh ∧ request.tag = tag ∧
      Span.InRange (s.now + request.timeout) ∧
      s.line.look s.now ⟨tag, request.job, s.now + request.timeout⟩ = (line, verdict) ∧
      s.turn tag = ((s.dropRequest tag).withLine line).note tag verdict) ∨
    (s.standing tag ≠ .cancelled ∧ ∃ request, request ∈ s.fresh ∧ request.tag = tag ∧
      ¬ Span.InRange (s.now + request.timeout) ∧
      s.turn tag = ((s.dropRequest tag).withLine s.line).note tag .panics) ∨
    (s.standing tag ≠ .cancelled ∧ (∀ request ∈ s.fresh, request.tag ≠ tag) ∧
      ∃ call line verdict, call ∈ s.line.woken ∧ call.tag = tag ∧
      s.line.lookAgain s.now call = (line, verdict) ∧
      s.turn tag = (s.withLine line).note tag verdict) ∨
    (s.standing tag ≠ .cancelled ∧ (∀ request ∈ s.fresh, request.tag ≠ tag) ∧
      (∀ call ∈ s.line.woken, call.tag ≠ tag) ∧
      (s.isLate tag = true ∧ s.turn tag = s.leave tag ∨
        s.isLate tag = false ∧ s.turn tag = s)) := by
  unfold turn
  split
  · rename_i hcancelled
    exact .inl ⟨hcancelled, rfl⟩
  · rename_i hcancelled
    split
    · rename_i request hrequest
      have hmem := List.mem_of_find?_eq_some hrequest
      have htag : request.tag = tag := by simpa using List.find?_some hrequest
      generalize hlooked : s.line.lookFirst s.now ⟨tag, request.job, s.now + request.timeout⟩ = looked
      obtain ⟨line, verdict⟩ := looked
      obtain ⟨hrange, hlook⟩ | ⟨hrange, rfl, rfl⟩ := Line.lookFirst_cases hlooked
      · exact .inr (.inl ⟨hcancelled, request, line, verdict, hmem, htag, hrange, hlook, rfl⟩)
      · exact .inr (.inr (.inl ⟨hcancelled, request, hmem, htag, hrange, rfl⟩))
    · rename_i hnone
      have hfresh : ∀ request ∈ s.fresh, request.tag ≠ tag := by
        simpa using hnone
      split
      · rename_i call hcall
        refine .inr (.inr (.inr (.inl ⟨hcancelled, hfresh, call, _, _,
          List.mem_of_find?_eq_some hcall, ?_, rfl, rfl⟩)))
        simpa using List.find?_some hcall
      · rename_i hwoken
        refine .inr (.inr (.inr (.inr ⟨hcancelled, hfresh, by simpa using hwoken, ?_⟩)))
        split
        · rename_i hlate
          exact .inl ⟨hlate, rfl⟩
        · rename_i hlate
          exact .inr ⟨Bool.eq_false_iff.mpr hlate, rfl⟩

theorem standing_spawn {s : Session} {job : JobId} {timeout other : Nat}
    (hne : other ≠ s.nextTag) : (s.spawn job timeout).2.standing other = s.standing other := by
  have hlast : ((s.nextTag, Standing.waiting).1 == other) = false := by
    simpa using hne.symm
  simp [Session.standing, Session.spawn, summon, List.find?_append, hlast]

namespace Tidy

variable {s : Session}

theorem calls_nodup (h : s.Tidy) : (s.line.calls.map Call.tag).Nodup :=
  h.tags.sublist (List.sublist_append_right _ _)

theorem fresh_nodup (h : s.Tidy) : (s.fresh.map Request.tag).Nodup :=
  h.tags.sublist (List.sublist_append_left _ _)

theorem woken_nodup (h : s.Tidy) : (s.line.woken.map Call.tag).Nodup := by
  have hcalls := h.calls_nodup
  rw [Line.calls, List.map_append] at hcalls
  exact hcalls.sublist (List.sublist_append_right _ _)

theorem waiting_tag_ne (h : s.Tidy) {call other : Call} (hcall : call ∈ s.line.waiting)
    (hother : other ∈ s.line.woken) : call.tag ≠ other.tag := by
  have hcalls := h.calls_nodup
  rw [Line.calls, List.map_append] at hcalls
  have hdisjoint := List.disjoint_of_nodup_append hcalls (List.mem_map_of_mem hcall)
  exact fun he => hdisjoint (he ▸ List.mem_map_of_mem hother)

theorem fresh_tag_ne (h : s.Tidy) {request : Request} {call : Call} (hrequest : request ∈ s.fresh)
    (hcall : call ∈ s.line.calls) : request.tag ≠ call.tag := by
  have hdisjoint := List.disjoint_of_nodup_append h.tags (List.mem_map_of_mem hrequest)
  exact fun he => hdisjoint (he ▸ List.mem_map_of_mem hcall)

-- What a turn must see to for the session to stay tidy: the tag whose turn it was is off the
-- agenda and must not be needed there any more.
theorem after_turn (h : s.Tidy) {tag : Nat} {fresh : List Request} {line : Line}
    {verdict : Verdict} (hsound : line.gate.Sound)
    (htags : (fresh.map Request.tag ++ line.calls.map Call.tag).Nodup)
    (hfresh : ∀ request ∈ fresh, request ∈ s.fresh ∧ request.tag ≠ tag)
    (hcalls : ∀ call ∈ line.calls, call ∈ s.line.calls ∨ (call.tag = tag ∧ tag < s.nextTag))
    (hwaiting : ∀ call ∈ line.waiting, (call ∈ s.line.waiting ∧ call.tag ≠ tag) ∨
      (call.tag = tag ∧ s.standing tag ≠ .cancelled ∧ verdict ≠ .panics)) :
    ((({ s with agenda := s.agenda.erase tag, fresh := fresh }).withLine line).note tag
      verdict).Tidy := by
  obtain ⟨hline, hagenda, hfresh', hnext, -⟩ :=
    note_frame (({ s with agenda := s.agenda.erase tag, fresh := fresh }).withLine line) tag verdict
  refine ⟨?_, ?_, ?_, ?_, ?_, ?_, ?_, ?_⟩
  · exact hline ▸ hsound
  · rw [hfresh', hline]
    exact htags
  · rw [hfresh', hnext]
    exact fun request hrequest => h.fresh_lt request (hfresh request hrequest).1
  · rw [hline, hnext]
    intro call hcall
    rcases hcalls call hcall with hold | ⟨rfl, hlt⟩
    · exact h.calls_lt call hold
    · exact hlt
  · rw [hnext]
    cases verdict with
    | waits => exact h.book_lt
    | granted | refused | panics => exact book_close_lt h.book_lt tag _
  · rw [hline, hagenda]
    intro call hcall
    exact (mem_agenda_withLine _ _ _).mpr (.inr ⟨call, hcall, rfl⟩)
  · rw [hfresh', hagenda]
    intro request hrequest
    obtain ⟨hold, hne⟩ := hfresh request hrequest
    exact (mem_agenda_withLine _ _ _).mpr
      (.inl ((List.mem_erase_of_ne hne).mpr (h.fresh_due request hold)))
  · rw [hline, hagenda]
    intro call hcall hcancelled
    rcases hwaiting call hcall with ⟨hold, hne⟩ | ⟨he, hnot, hlooked⟩
    · have hbefore := (cancelled_of_note hcancelled).resolve_right fun hpanics => hne hpanics.1
      exact (mem_agenda_withLine _ _ _).mpr
        (.inl ((List.mem_erase_of_ne hne).mpr (h.cancelled_due call hold hbefore)))
    · have hbefore := (cancelled_of_note hcancelled).resolve_right fun hpanics =>
        hlooked hpanics.2
      exact absurd (he ▸ hbefore) hnot

theorem after_leave (h : s.Tidy) {tag : Nat} {fresh : List Request}
    (hsub : fresh.Sublist s.fresh) (hfresh : ∀ request ∈ fresh, request.tag ≠ tag) :
    ((({ s with agenda := s.agenda.erase tag, fresh := fresh }).withLine
      (s.line.withdraw tag)).note tag .refused).Tidy := by
  have hperm : (s.line.withdraw tag).calls.Perm
      (s.line.calls.filter (fun call => call.tag != tag)) :=
    Line.withdraw_calls_perm h.calls_nodup
  refine h.after_turn ?_ ?_ ?_ ?_ ?_
  · exact (Line.withdraw_gate _ _).symm ▸ h.sound
  · rw [((hperm.map Call.tag).append_left _).nodup_iff]
    exact h.tags.sublist ((hsub.map _).append (List.filter_sublist.map _))
  · exact fun request hrequest => ⟨hsub.subset hrequest, hfresh request hrequest⟩
  · exact fun call hcall => .inl (Line.withdraw_calls hcall)
  · exact fun call hcall => .inl (Line.withdraw_waiting h.calls_nodup hcall)

theorem after_look (h : s.Tidy) {tag : Nat} {fresh : List Request} {woken : List Call}
    {call : Call} {line : Line} {verdict : Verdict}
    (htag : call.tag = tag) (hlt : tag < s.nextTag) (hstanding : s.standing tag ≠ .cancelled)
    (hwoken : ∀ other ∈ woken, other ∈ s.line.woken)
    (hfresh : ∀ request ∈ fresh, request ∈ s.fresh ∧ request.tag ≠ tag)
    (hne : ∀ other ∈ s.line.waiting, other.tag ≠ tag)
    (htags : (fresh.map Request.tag ++
      (s.line.waiting ++ [call] ++ woken).map Call.tag).Nodup)
    (hlook : ({ s.line with woken := woken } : Line).look s.now call = (line, verdict)) :
    ((({ s with agenda := s.agenda.erase tag, fresh := fresh }).withLine line).note tag
      verdict).Tidy := by
  have hsound : line.gate.Sound := by
    rcases Line.look_gate hlook with ⟨-, hgate⟩ | ⟨-, hgate⟩
    · exact h.sound.acquire hgate
    · exact hgate ▸ h.sound
  have hshort : (fresh.map Request.tag ++ (s.line.waiting ++ woken).map Call.tag).Nodup := by
    refine htags.sublist ((List.Sublist.refl _).append (List.Sublist.map _ ?_))
    exact (List.sublist_append_left _ _).append (List.Sublist.refl _)
  have hold : ∀ other ∈ s.line.waiting ++ woken, other ∈ s.line.calls := by
    intro other hother
    rcases List.mem_append.mp hother with hwaiting | hother
    · exact List.mem_append_left _ hwaiting
    · exact List.mem_append_right _ (hwoken other hother)
  have hsame : ∀ other ∈ s.line.waiting, (other ∈ s.line.waiting ∧ other.tag ≠ tag) ∨
      (other.tag = tag ∧ s.standing tag ≠ .cancelled ∧ verdict ≠ .panics) := fun other hother =>
    .inl ⟨hother, hne other hother⟩
  obtain ⟨g, -, rfl, -⟩ | ⟨-, -, rfl, -⟩ | ⟨-, -, -, rfl, rfl⟩ := Line.look_cases hlook
  · exact h.after_turn hsound hshort hfresh (fun other hother => .inl (hold other hother)) hsame
  · exact h.after_turn hsound hshort hfresh (fun other hother => .inl (hold other hother)) hsame
  · refine h.after_turn hsound htags hfresh ?_ ?_
    · intro other hother
      simp only [Line.calls, List.mem_append, List.mem_singleton] at hother hold ⊢
      rcases hother with (hother | rfl) | hother
      · exact .inl (.inl hother)
      · exact .inr ⟨htag, hlt⟩
      · exact .inl (.inr (hwoken other hother))
    · intro other hother
      rcases List.mem_append.mp hother with hother | hother
      · exact hsame other hother
      · exact .inr ⟨List.mem_singleton.mp hother ▸ htag, hstanding, by simp⟩

theorem turn (h : s.Tidy) (tag : Nat) :
    (({ s with agenda := s.agenda.erase tag } : Session).turn tag).Tidy := by
  rcases turn_cases { s with agenda := s.agenda.erase tag } tag with
    ⟨-, hturn⟩ | ⟨hstanding, request, line, verdict, hrequest, htag, -, hlook, hturn⟩ |
    ⟨-, request, hrequest, htag, -, hturn⟩ |
    ⟨hstanding, hfresh, call, line, verdict, hcall, htag, hlook, hturn⟩ |
    ⟨hstanding, hfresh, hwoken, ⟨-, hturn⟩ | ⟨-, hturn⟩⟩
  · -- given up
    rw [hturn]
    exact h.after_leave List.filter_sublist (fun request hrequest => by
      simpa using (List.mem_filter.mp hrequest).2)
  · -- the first look
    rw [hturn]
    refine h.after_look rfl (htag ▸ h.fresh_lt request hrequest) hstanding (fun _ => id) ?_ ?_ ?_
      hlook
    · exact fun other hother => ⟨(List.mem_filter.mp hother).1, by
        simpa using (List.mem_filter.mp hother).2⟩
    · exact fun other hother =>
        htag ▸ (h.fresh_tag_ne hrequest (List.mem_append_left _ hother)).symm
    · have hperm := (Keyed.perm_cons_filter h.fresh_nodup hrequest).map Request.tag
      rw [htag] at hperm
      refine (List.Perm.nodup_iff ?_).mp h.tags
      refine (hperm.append_right _).trans ?_
      simp only [Line.calls, List.map_append, List.map_cons, List.append_assoc, List.cons_append,
        List.nil_append, htag]
      rw [← List.append_assoc, ← List.append_assoc]
      exact List.perm_middle.symm
  · -- no time to wait for
    rw [hturn]
    refine h.after_turn h.sound ?_ ?_ (fun other hother => .inl hother) ?_
    · exact h.tags.sublist ((List.filter_sublist.map _).append (List.Sublist.refl _))
    · exact fun other hother => ⟨(List.mem_filter.mp hother).1, by
        simpa using (List.mem_filter.mp hother).2⟩
    · exact fun other hother => .inl ⟨hother,
        htag ▸ (h.fresh_tag_ne hrequest (List.mem_append_left _ hother)).symm⟩
  · -- another look
    rw [hturn]
    have hlt := h.calls_lt call (List.mem_append_right _ hcall)
    refine after_look h htag (htag ▸ hlt) hstanding
      (fun other hother => (List.mem_filter.mp hother).1) (fun request hrequest =>
        ⟨hrequest, hfresh request hrequest⟩)
      (fun other hother => htag ▸ h.waiting_tag_ne hother hcall) ?_ hlook
    have hperm := (Keyed.perm_cons_filter h.woken_nodup hcall).map Call.tag
    refine (List.Perm.nodup_iff ?_).mp h.tags
    simp only [Line.calls, List.map_append, List.map_cons, List.map_nil, List.append_assoc]
    exact (hperm.append_left _).append_left _
  · -- out of time
    rw [hturn]
    exact h.after_leave (List.Sublist.refl _) hfresh
  · -- nothing to do
    rw [hturn]
    refine ⟨h.sound, h.tags, h.fresh_lt, h.calls_lt, h.book_lt, ?_, ?_, ?_⟩
    · exact fun call hcall => (List.mem_erase_of_ne (hwoken call hcall)).mpr (h.woken_due call hcall)
    · exact fun request hrequest =>
        (List.mem_erase_of_ne (hfresh request hrequest)).mpr (h.fresh_due request hrequest)
    · intro call hcall hcancelled
      have hne : call.tag ≠ tag := fun he => hstanding (he ▸ hcancelled)
      exact (List.mem_erase_of_ne hne).mpr (h.cancelled_due call hcall hcancelled)

theorem acquireNow (h : s.Tidy) (job : JobId) : (s.acquireNow job).2.Tidy := by
  simp only [Session.acquireNow, Line.acquire?]
  cases hg : s.line.gate.acquire? job with
  | none => exact h
  | some g => exact ⟨h.sound.acquire hg, h.tags, h.fresh_lt, h.calls_lt, h.book_lt, h.woken_due,
      h.fresh_due, h.cancelled_due⟩

theorem release (h : s.Tidy) (job : JobId) : (s.release job).2.Tidy := by
  simp only [Session.release]
  cases hl : s.line.release? job with
  | none => exact h
  | some line =>
    have hperm := Line.release?_calls hl
    refine ⟨h.sound.release (Line.release?_gate hl), ?_, h.fresh_lt, ?_, h.book_lt, ?_, ?_, ?_⟩
    · exact ((hperm.map Call.tag).append_left _).nodup_iff.mpr h.tags
    · exact fun call hcall => h.calls_lt call (hperm.mem_iff.mp hcall)
    · exact fun call hcall => (mem_agenda_withLine _ _ _).mpr (.inr ⟨call, hcall, rfl⟩)
    · exact fun request hrequest => (mem_agenda_withLine _ _ _).mpr
        (.inl (h.fresh_due request hrequest))
    · intro call hcall hcancelled
      refine (mem_agenda_withLine _ _ _).mpr (.inl ?_)
      obtain ⟨g, -, rfl⟩ := Line.release?_eq_some_iff.mp hl
      have hold := Line.wakeOne_waiting hcall
      exact h.cancelled_due call hold hcancelled

theorem spawn (h : s.Tidy) (job : JobId) (timeout : Nat) : (s.spawn job timeout).2.Tidy := by
  have hnew : ∀ tag, tag ∈ (s.spawn job timeout).2.agenda ↔ tag ∈ s.agenda ∨ tag = s.nextTag := by
    intro tag
    simp [Session.spawn, mem_summon]
  refine ⟨h.sound, ?_, ?_, ?_, ?_, ?_, ?_, ?_⟩
  · have hperm : ((s.fresh ++ [(⟨s.nextTag, job, timeout⟩ : Request)]).map Request.tag ++
        s.line.calls.map Call.tag).Perm
          (s.nextTag :: (s.fresh.map Request.tag ++ s.line.calls.map Call.tag)) := by
      rw [List.map_append, List.append_assoc]
      exact List.perm_middle
    refine hperm.nodup_iff.mpr (List.nodup_cons.mpr ⟨?_, h.tags⟩)
    intro hmem
    rcases List.mem_append.mp hmem with hmem | hmem
    · obtain ⟨request, hrequest, htag⟩ := List.mem_map.mp hmem
      exact absurd (h.fresh_lt request hrequest) (by omega)
    · obtain ⟨call, hcall, htag⟩ := List.mem_map.mp hmem
      exact absurd (h.calls_lt call hcall) (by omega)
  · intro request hrequest
    rcases List.mem_append.mp hrequest with hold | hnew
    · exact Nat.lt_succ_of_lt (h.fresh_lt request hold)
    · rw [List.mem_singleton.mp hnew]
      exact Nat.lt_succ_self _
  · exact fun call hcall => Nat.lt_succ_of_lt (h.calls_lt call hcall)
  · intro entry hentry
    rcases List.mem_append.mp hentry with hold | hnew
    · exact Nat.lt_succ_of_lt (h.book_lt entry hold)
    · rw [List.mem_singleton.mp hnew]
      exact Nat.lt_succ_self _
  · exact fun call hcall => (hnew _).mpr (.inl (h.woken_due call hcall))
  · intro request hrequest
    rcases List.mem_append.mp hrequest with hold | hlast
    · exact (hnew _).mpr (.inl (h.fresh_due request hold))
    · rw [List.mem_singleton.mp hlast]
      exact (hnew _).mpr (.inr rfl)
  · intro call hcall hcancelled
    refine (hnew _).mpr (.inl (h.cancelled_due call hcall ?_))
    have hlt := h.calls_lt call (List.mem_append_left _ hcall)
    exact (standing_spawn (Nat.ne_of_lt hlt)).symm.trans hcancelled

theorem cancel (h : s.Tidy) (tag : Nat) : (s.cancel tag).Tidy := by
  refine ⟨h.sound, h.tags, h.fresh_lt, h.calls_lt, book_close_lt h.book_lt tag _, ?_, ?_, ?_⟩
  · exact fun call hcall => (mem_summon _ _ _).mpr (.inl (h.woken_due call hcall))
  · exact fun request hrequest => (mem_summon _ _ _).mpr (.inl (h.fresh_due request hrequest))
  · intro call hcall hcancelled
    rcases standing_close s tag call.tag .cancelled with he | ⟨he, -⟩
    · exact (mem_summon _ _ _).mpr (.inl (h.cancelled_due call hcall (he ▸ hcancelled)))
    · exact (mem_summon _ _ _).mpr (.inr (by simp [he]))

theorem arriveAt (h : s.Tidy) (now : Nat) : (s.arriveAt now).Tidy := by
  refine ⟨h.sound, h.tags, h.fresh_lt, h.calls_lt, h.book_lt, ?_, ?_, ?_⟩
  · exact fun call hcall => (mem_summon _ _ _).mpr (.inl (h.woken_due call hcall))
  · exact fun request hrequest => (mem_summon _ _ _).mpr (.inl (h.fresh_due request hrequest))
  · exact fun call hcall hcancelled =>
      (mem_summon _ _ _).mpr (.inl (h.cancelled_due call hcall hcancelled))

theorem happen (h : s.Tidy) (event : Event) : (s.happen event).Tidy := by
  cases event with
  | acquireNow job => exact h.acquireNow job
  | release job => exact h.release job
  | spawn job timeout => exact h.spawn job timeout
  | cancel tag => exact h.cancel tag
  | pass now =>
    simp only [Session.happen]
    split
    · exact h.arriveAt now
    · exact h
  | turn tag =>
    simp only [Session.happen]
    split
    · exact h.turn tag
    · exact h

theorem runs (h : s.Tidy) (events : List Event) : (s.runs events).Tidy := by
  induction events generalizing s with
  | nil => exact h
  | cons event events ih => exact ih (h.happen event)

end Tidy

end Foreman.Gate.Session
