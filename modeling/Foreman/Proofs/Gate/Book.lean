import Foreman.Proofs.Gate.Interleaving

namespace Foreman.Gate.Session

-- The call has been entered in the book and is not over.
def IsOpen (s : Session) (tag : Nat) : Prop :=
  tag ∈ s.book.map Prod.fst ∧ (s.standing tag = .waiting ∨ s.standing tag = .cancelled)

-- A call that has yet to look, or is in the line, is open.
structure Booked (s : Session) : Prop where
  fresh : ∀ request ∈ s.fresh, s.IsOpen request.tag
  calls : ∀ call ∈ s.line.calls, s.IsOpen call.tag

variable {s : Session} {tag other : Nat} {standing : Standing}

theorem book_close_keys (s : Session) (tag : Nat) (standing : Standing) :
    (s.close tag standing).book.map Prod.fst = s.book.map Prod.fst := by
  simp only [close, List.map_map]
  apply List.map_congr_left
  intro entry _
  simp only [Function.comp_apply]
  split <;> simp_all

theorem standing_close_self (hbook : tag ∈ s.book.map Prod.fst)
    (hwaiting : s.standing tag = .waiting) : (s.close tag standing).standing tag = standing := by
  simp only [Session.standing, find?_close] at hwaiting ⊢
  cases hfind : s.book.find? (fun entry => entry.1 == tag) with
  | none =>
    obtain ⟨entry, hentry, htag⟩ := List.mem_map.mp hbook
    exact absurd htag (by simpa using List.find?_eq_none.mp hfind entry hentry)
  | some entry =>
    have htag : entry.1 = tag := by simpa using List.find?_some hfind
    have hstanding : entry.2 = .waiting := by simpa [hfind] using hwaiting
    simp [htag, hstanding]

-- What is over cannot be closed again.
theorem standing_close_of_closed (hclosed : s.standing tag ≠ .waiting) :
    (s.close tag standing).standing tag = s.standing tag := by
  simp only [Session.standing, find?_close] at hclosed ⊢
  cases hfind : s.book.find? (fun entry => entry.1 == tag) with
  | none => rfl
  | some entry =>
    have hentry : entry.2 ≠ .waiting := by simpa [hfind] using hclosed
    simp [hentry]

theorem standing_close_of_ne (hne : other ≠ tag) :
    (s.close tag standing).standing other = s.standing other := by
  rcases standing_close s tag other standing with hsame | ⟨he, -⟩
  · exact hsame
  · exact absurd he hne

-- How a call stands is in the book and nowhere else.
theorem standing_congr {base : Session} (hbook : base.book = s.book) (tag : Nat) :
    base.standing tag = s.standing tag := by
  unfold Session.standing
  rw [hbook]

-- A call is told that it has a slot by no other verdict than that.
theorem ended_of_note {verdict : Verdict} (hverdict : verdict ≠ .granted)
    (hended : (s.note tag verdict).standing tag = .ended true) : s.standing tag = .ended true := by
  cases verdict with
  | granted => exact absurd rfl hverdict
  | waits => exact hended
  | refused =>
    rcases standing_close s tag tag (.ended false) with hsame | ⟨-, hrefused⟩
    · exact hsame ▸ hended
    · exact absurd (hrefused.symm.trans hended) (by decide)
  | panics =>
    rcases standing_close s tag tag .cancelled with hsame | ⟨-, hcancelled⟩
    · exact hsame ▸ hended
    · exact absurd (hcancelled.symm.trans hended) (by decide)

theorem IsOpen.close_of_ne (h : s.IsOpen other) (hne : other ≠ tag) :
    (s.close tag standing).IsOpen other := by
  refine ⟨?_, ?_⟩
  · rw [book_close_keys]
    exact h.1
  · rw [standing_close_of_ne hne]
    exact h.2

theorem IsOpen.note_of_ne (h : s.IsOpen other) (hne : other ≠ tag) (verdict : Verdict) :
    (s.note tag verdict).IsOpen other := by
  cases verdict with
  | waits => exact h
  | granted | refused | panics => exact h.close_of_ne hne

-- To give up a call leaves every call open that was.
theorem IsOpen.cancel (h : s.IsOpen other) (tag : Nat) : (s.cancel tag).IsOpen other := by
  have hkeys : other ∈ (s.close tag .cancelled).book.map Prod.fst := by
    rw [book_close_keys]
    exact h.1
  refine ⟨hkeys, ?_⟩
  rcases standing_close s tag other .cancelled with hsame | ⟨-, hcancelled⟩
  · exact hsame ▸ h.2
  · exact .inr hcancelled

theorem IsOpen.spawn (h : s.IsOpen other) (hother : other ≠ s.nextTag) (job : JobId)
    (timeout : Nat) : (s.spawn job timeout).2.IsOpen other := by
  refine ⟨?_, ?_⟩
  · show other ∈ (s.book ++ [(s.nextTag, Standing.waiting)]).map Prod.fst
    rw [List.map_append]
    exact List.mem_append_left _ h.1
  · rw [standing_spawn hother]
    exact h.2

theorem isOpen_spawn_self (hbook : ∀ entry ∈ s.book, entry.1 < s.nextTag) (job : JobId)
    (timeout : Nat) : (s.spawn job timeout).2.IsOpen s.nextTag := by
  have hnone : s.book.find? (fun entry => entry.1 == s.nextTag) = none := by
    rw [List.find?_eq_none]
    intro entry hentry
    simpa using Nat.ne_of_lt (hbook entry hentry)
  refine ⟨?_, .inl ?_⟩
  · show s.nextTag ∈ (s.book ++ [(s.nextTag, Standing.waiting)]).map Prod.fst
    simp
  · simp [Session.standing, Session.spawn, summon, List.find?_append, hnone]

theorem booked_start (capacity : Nat) : (start capacity).Booked where
  fresh := by simp [start]
  calls := by simp [start, Line.ofGate, Line.calls]

namespace Booked

-- The call whose turn it was may be closed: it is in the line only if it waits on.
theorem after_turn (h : s.Booked) {fresh : List Request} {line : Line} {verdict : Verdict}
    (hfresh : ∀ request ∈ fresh, request ∈ s.fresh ∧ request.tag ≠ tag)
    (hcalls : ∀ call ∈ line.calls, (call ∈ s.line.calls ∧ call.tag ≠ tag) ∨
      (call.tag = tag ∧ s.IsOpen tag ∧ verdict = .waits)) :
    ((({ s with agenda := s.agenda.erase tag, fresh := fresh }).withLine line).note tag
      verdict).Booked := by
  obtain ⟨hline, -, hfresh', -, -⟩ :=
    note_frame (({ s with agenda := s.agenda.erase tag, fresh := fresh }).withLine line) tag verdict
  have hbook : ∀ other, s.IsOpen other →
      (({ s with agenda := s.agenda.erase tag, fresh := fresh }).withLine line).IsOpen other :=
    fun _ hopen => hopen
  refine ⟨?_, ?_⟩
  · rw [hfresh']
    intro request hrequest
    obtain ⟨hold, hne⟩ := hfresh request hrequest
    exact (hbook _ (h.fresh request hold)).note_of_ne hne verdict
  · rw [hline]
    intro call hcall
    rcases hcalls call hcall with ⟨hold, hne⟩ | ⟨rfl, hopen, rfl⟩
    · exact (hbook _ (h.calls call hold)).note_of_ne hne verdict
    · exact hopen

theorem after_leave (h : s.Booked) (ht : s.Tidy) {fresh : List Request}
    (hfresh : ∀ request ∈ fresh, request ∈ s.fresh ∧ request.tag ≠ tag) :
    ((({ s with agenda := s.agenda.erase tag, fresh := fresh }).withLine
      (s.line.withdraw tag)).note tag .refused).Booked := by
  refine h.after_turn hfresh ?_
  intro call hcall
  rw [(Line.withdraw_calls_perm ht.calls_nodup).mem_iff, List.mem_filter] at hcall
  exact .inl ⟨hcall.1, by simpa using hcall.2⟩

theorem after_look (h : s.Booked) {fresh : List Request} {woken : List Call} {call : Call}
    {line : Line} {verdict : Verdict} (htag : call.tag = tag) (hopen : s.IsOpen tag)
    (hfresh : ∀ request ∈ fresh, request ∈ s.fresh ∧ request.tag ≠ tag)
    (hold : ∀ other ∈ s.line.waiting ++ woken, other ∈ s.line.calls ∧ other.tag ≠ tag)
    (hlook : ({ s.line with woken := woken } : Line).look s.now call = (line, verdict)) :
    ((({ s with agenda := s.agenda.erase tag, fresh := fresh }).withLine line).note tag
      verdict).Booked := by
  refine h.after_turn hfresh ?_
  intro other hother
  obtain ⟨g, -, rfl, rfl⟩ | ⟨-, -, rfl, rfl⟩ | ⟨-, -, -, rfl, rfl⟩ := Line.look_cases hlook
  · exact .inl (hold other hother)
  · exact .inl (hold other hother)
  · simp only [Line.calls, List.mem_append, List.mem_singleton] at hother
    rcases hother with (hother | rfl) | hother
    · exact .inl (hold other (List.mem_append_left _ hother))
    · exact .inr ⟨htag, hopen, rfl⟩
    · exact .inl (hold other (List.mem_append_right _ hother))

theorem turn (h : s.Booked) (ht : s.Tidy) (tag : Nat) :
    (({ s with agenda := s.agenda.erase tag } : Session).turn tag).Booked := by
  have hdropped : ∀ request ∈ s.fresh.filter (fun request => request.tag != tag),
      request ∈ s.fresh ∧ request.tag ≠ tag := by
    intro request hrequest
    obtain ⟨hold, hne⟩ := List.mem_filter.mp hrequest
    exact ⟨hold, by simpa using hne⟩
  rcases turn_cases { s with agenda := s.agenda.erase tag } tag with
    ⟨-, hturn⟩ | ⟨-, request, line, verdict, hrequest, htag, -, hlook, hturn⟩ |
    ⟨-, request, hrequest, htag, -, hturn⟩ |
    ⟨-, hfresh, call, line, verdict, hcall, htag, hlook, hturn⟩ |
    ⟨-, hfresh, -, ⟨-, hturn⟩ | ⟨-, hturn⟩⟩
  · -- given up
    rw [hturn]
    exact h.after_leave ht hdropped
  · -- the first look
    rw [hturn]
    have hopen : s.IsOpen tag := htag ▸ h.fresh request hrequest
    refine after_look h rfl hopen hdropped ?_ hlook
    exact fun other hother => ⟨hother, htag ▸ (ht.fresh_tag_ne hrequest hother).symm⟩
  · -- no time to wait for
    rw [hturn]
    exact h.after_turn hdropped fun other hother =>
      .inl ⟨hother, htag ▸ (ht.fresh_tag_ne hrequest hother).symm⟩
  · -- another look
    rw [hturn]
    refine after_look h htag (htag ▸ h.calls call (List.mem_append_right _ hcall))
      (fun request hrequest => ⟨hrequest, hfresh request hrequest⟩) ?_ hlook
    intro other hother
    rcases List.mem_append.mp hother with hwaiting | hwoken
    · exact ⟨List.mem_append_left _ hwaiting, htag ▸ ht.waiting_tag_ne hwaiting hcall⟩
    · obtain ⟨hold, hne⟩ := List.mem_filter.mp hwoken
      exact ⟨List.mem_append_right _ hold, by simpa [htag] using hne⟩
  · -- out of time
    rw [hturn]
    exact h.after_leave ht (fun request hrequest => ⟨hrequest, hfresh request hrequest⟩)
  · -- nothing to do
    rw [hturn]
    exact ⟨h.fresh, h.calls⟩

theorem happen (h : s.Booked) (ht : s.Tidy) (event : Event) : (s.happen event).Booked := by
  cases event with
  | acquireNow job =>
    simp only [Session.happen, Session.acquireNow, Line.acquire?]
    cases s.line.gate.acquire? job with
    | none => exact h
    | some g => exact ⟨h.fresh, h.calls⟩
  | release job =>
    simp only [Session.happen, Session.release]
    cases hl : s.line.release? job with
    | none => exact h
    | some line =>
      exact ⟨h.fresh, fun call hcall => h.calls call ((Line.release?_calls hl).mem_iff.mp hcall)⟩
  | spawn job timeout =>
    refine ⟨?_, ?_⟩
    · intro request hrequest
      rcases List.mem_append.mp hrequest with hold | hnew
      · exact (h.fresh request hold).spawn (Nat.ne_of_lt (ht.fresh_lt request hold)) job timeout
      · rw [List.mem_singleton.mp hnew]
        exact isOpen_spawn_self ht.book_lt job timeout
    · exact fun call hcall =>
        (h.calls call hcall).spawn (Nat.ne_of_lt (ht.calls_lt call hcall)) job timeout
  | cancel tag =>
    exact ⟨fun request hrequest => (h.fresh request hrequest).cancel tag,
      fun call hcall => (h.calls call hcall).cancel tag⟩
  | pass now =>
    simp only [Session.happen]
    split
    · exact ⟨h.fresh, h.calls⟩
    · exact h
  | turn tag =>
    simp only [Session.happen]
    split
    · exact h.turn ht tag
    · exact h

theorem runs (h : s.Booked) (ht : s.Tidy) (events : List Event) : (s.runs events).Booked := by
  induction events generalizing s with
  | nil => exact h
  | cons event events ih => exact ih (h.happen ht event) (ht.happen event)

end Booked

end Foreman.Gate.Session
