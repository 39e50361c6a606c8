import Foreman.Proofs.Gate.Interleaving
import Foreman.Proofs.Since

namespace Foreman

namespace Line

variable {l l' : Line} {job : JobId} {now tag : Nat} {call : Call} {verdict : Verdict}

-- Somebody waits, and more slots are free than calls have been told of.
def Owes (l : Line) : Prop := l.waiting ≠ [] ∧ l.woken.length < l.gate.free

theorem not_owes_of_full (h : l.gate.capacity ≤ l.gate.taken) : ¬ l.Owes := by
  rintro ⟨-, hfree⟩
  simp only [Gate.free] at hfree
  omega

-- A call that fails to get a slot without having one found the gate full.
theorem full_of_acquire?_eq_none (hnone : l.gate.acquire? job = none)
    (hfree : job ∉ l.gate.holders) : l.gate.capacity ≤ l.gate.taken := by
  rcases Gate.acquire?_eq_none_iff.mp hnone with hheld | hfull
  · exact absurd (Gate.holds_iff.mp hheld) hfree
  · exact hfull

-- A slot that is taken is owed to nobody.
theorem owes_of_owes_acquire {g : Gate} (hg : l.gate.acquire? job = some g)
    (h : ({ l with gate := g } : Line).Owes) : l.Owes := by
  obtain ⟨hwaiting, hwoken⟩ := h
  have hfree := Gate.free_acquire hg
  refine ⟨hwaiting, ?_⟩
  simp only at hwoken
  omega

-- Each slot given back is told to somebody, if anybody waits.
theorem owes_of_owes_release (hsound : l.gate.Sound) (hl : l.release? job = some l')
    (h : l'.Owes) : l.Owes := by
  obtain ⟨g, hg, rfl⟩ := release?_eq_some_iff.mp hl
  have hfree := Gate.free_release hsound hg
  obtain ⟨hwaiting, hwoken⟩ := h
  rw [wakeOne_gate] at hwoken
  cases hl : l.waiting with
  | nil => simp [wakeOne, hl] at hwaiting
  | cons first rest =>
    simp only [wakeOne, hl, List.length_append, List.length_singleton] at hwoken
    refine ⟨by simp [hl], ?_⟩
    omega

-- A call that is withdrawn passes on what it was told.
theorem owes_of_owes_withdraw (htags : (l.calls.map Call.tag).Nodup)
    (h : (l.withdraw tag).Owes) : l.Owes := by
  obtain ⟨hwaiting, hwoken⟩ := h
  rw [withdraw_gate] at hwoken
  unfold withdraw at hwaiting hwoken
  split at hwaiting
  · rename_i hany
    rw [if_pos hany] at hwoken
    obtain ⟨call, hcall, htag⟩ := List.any_eq_true.mp hany
    rw [calls, List.map_append] at htags
    have hlength := Keyed.length_filter_ne (htags.sublist (List.sublist_append_right _ _)) hcall
    rw [beq_iff_eq.mp htag] at hlength
    cases hl : l.waiting with
    | nil => simp [wakeOne, hl] at hwaiting
    | cons first rest =>
      simp only [wakeOne, hl, List.length_append, List.length_singleton] at hwoken
      exact ⟨by simp [hl], by omega⟩
  · rename_i hany
    rw [if_neg hany] at hwoken
    refine ⟨?_, hwoken⟩
    intro hnil
    simp [hnil] at hwaiting

theorem owes_of_owes_look (hl : l.look now call = (l', verdict)) (h : l'.Owes) :
    l.Owes := by
  obtain ⟨g, hg, rfl, -⟩ | ⟨-, -, rfl, -⟩ | ⟨hnone, hfree, -, rfl, -⟩ := look_cases hl
  · exact owes_of_owes_acquire hg h
  · exact h
  · exact absurd h (not_owes_of_full (full_of_acquire?_eq_none hnone hfree))

end Line

namespace Gate.Session

-- A woken call has its turn and finds that its own job has a slot. It gives up, and nobody else
-- is told of the slot for which it was woken, although others wait and no free slot is to spare.
def WastesWake (s : Session) (tag : Nat) : Prop :=
  s.standing tag ≠ .cancelled ∧ s.line.waiting ≠ [] ∧
    s.line.woken.length ≤ s.line.gate.free ∧
    ∃ call ∈ s.line.woken, call.tag = tag ∧ call.job ∈ s.line.gate.holders

-- The event is the turn of such a call.
def Wastes (s : Session) (event : Event) : Prop :=
  ∃ tag ∈ s.agenda, event = .turn tag ∧ s.WastesWake tag

variable {s : Session} {tag : Nat}

theorem note_line (s : Session) (tag : Nat) (verdict : Verdict) :
    (s.note tag verdict).line = s.line := (note_frame s tag verdict).1

theorem withLine_line (s : Session) (line : Line) : (s.withLine line).line = line := rfl

-- A turn leaves a slot owed that was not owed before only if it wastes a wake-up.
theorem owes_turn_iff (h : s.Tidy) (howes : ¬ s.line.Owes) :
    (({ s with agenda := s.agenda.erase tag } : Session).turn tag).line.Owes ↔
      s.WastesWake tag := by
  rcases turn_cases { s with agenda := s.agenda.erase tag } tag with
    ⟨hstanding, hturn⟩ | ⟨hstanding, request, line, verdict, hrequest, htag, -, hlook, hturn⟩ |
    ⟨-, request, hrequest, htag, -, hturn⟩ |
    ⟨hstanding, hfresh, call, line, verdict, hcall, htag, hlook, hturn⟩ |
    ⟨hstanding, hfresh, hwoken, hturn⟩
  · -- given up
    rw [hturn]
    constructor
    · intro hafter
      have hleft : (s.line.withdraw tag).Owes := hafter
      exact absurd (Line.owes_of_owes_withdraw h.calls_nodup hleft) howes
    · exact fun hwaste => absurd hstanding hwaste.1
  · -- the first look
    rw [hturn, note_line, withLine_line]
    constructor
    · exact fun hafter => absurd (Line.owes_of_owes_look hlook hafter) howes
    · rintro ⟨-, -, -, call, hcall, hsame, -⟩
      exact absurd (htag.trans hsame.symm) (h.fresh_tag_ne hrequest (List.mem_append_right _ hcall))
  · -- no time to wait for
    rw [hturn, note_line, withLine_line]
    constructor
    · exact fun hafter => absurd hafter howes
    · rintro ⟨-, -, -, call, hcall, hsame, -⟩
      exact absurd (htag.trans hsame.symm) (h.fresh_tag_ne hrequest (List.mem_append_right _ hcall))
  · -- another look
    rw [hturn, note_line, withLine_line]
    have hlength := Keyed.length_filter_ne h.woken_nodup hcall
    have hsame : ∀ other ∈ s.line.woken, other.tag = tag → other = call := fun other hother he =>
      List.inj_on_of_nodup_map h.woken_nodup hother hcall (he.trans htag.symm)
    obtain ⟨g, hg, rfl, -⟩ | ⟨hnone, -, rfl, -⟩ | ⟨hnone, hfree, -, rfl, -⟩ :=
      Line.look_cases hlook
    · have hfewer := Gate.free_acquire hg
      constructor
      · rintro ⟨hwaiting, hwoken⟩
        refine absurd ⟨hwaiting, ?_⟩ howes
        simp only at hwoken hfewer
        omega
      · rintro ⟨-, -, -, other, hother, he, hheld⟩
        rw [hsame other hother he] at hheld
        exact absurd hheld (Gate.acquire?_eq_some_iff.mp hg).1
    · constructor
      · rintro ⟨hwaiting, hwoken⟩
        refine ⟨hstanding, hwaiting, ?_, call, hcall, htag, ?_⟩
        · simp only at hwoken
          omega
        · by_contra hfree
          exact Line.not_owes_of_full (l := { s.line with woken := _ })
            (Line.full_of_acquire?_eq_none hnone hfree) ⟨hwaiting, hwoken⟩
      · rintro ⟨-, hwaiting, hspare, -⟩
        refine ⟨hwaiting, ?_⟩
        simp only
        omega
    · constructor
      · exact fun howed => absurd howed
          (Line.not_owes_of_full (Line.full_of_acquire?_eq_none hnone hfree))
      · rintro ⟨-, -, -, other, hother, he, hheld⟩
        rw [hsame other hother he] at hheld
        exact absurd hheld hfree
  · -- out of time, or nothing to do
    constructor
    · intro hafter
      rcases hturn with ⟨-, hturn⟩ | ⟨-, hturn⟩
      · rw [hturn] at hafter
        have hleft : (s.line.withdraw tag).Owes := hafter
        exact absurd (Line.owes_of_owes_withdraw h.calls_nodup hleft) howes
      · rw [hturn] at hafter
        exact absurd hafter howes
    · rintro ⟨-, -, -, call, hcall, htag, -⟩
      exact absurd htag (hwoken call hcall)

theorem owes_happen_iff (h : s.Tidy) (howes : ¬ s.line.Owes) (event : Event) :
    (s.happen event).line.Owes ↔ s.Wastes event := by
  unfold Wastes
  cases event with
  | acquireNow job =>
    simp only [happen, acquireNow, Line.acquire?, reduceCtorEq, false_and, and_false, exists_false,
      iff_false]
    cases hg : s.line.gate.acquire? job with
    | none => exact howes
    | some g => exact mt (Line.owes_of_owes_acquire hg) howes
  | release job =>
    simp only [happen, release, reduceCtorEq, false_and, and_false, exists_false, iff_false]
    cases hl : s.line.release? job with
    | none => exact howes
    | some line => exact mt (Line.owes_of_owes_release h.sound hl) howes
  | spawn job timeout => simpa [happen, spawn, summon] using howes
  | cancel tag => simpa [happen, cancel, summon, close] using howes
  | pass now =>
    simp only [happen, reduceCtorEq, false_and, and_false, exists_false, iff_false]
    split
    · exact howes
    · exact howes
  | turn tag =>
    simp only [happen, Event.turn.injEq]
    split
    · rename_i hmem
      rw [owes_turn_iff h howes]
      constructor
      · exact fun hwaste => ⟨tag, hmem, rfl, hwaste⟩
      · rintro ⟨other, -, rfl, hwaste⟩
        exact hwaste
    · rename_i hmem
      constructor
      · exact fun howed => absurd howed howes
      · rintro ⟨other, hother, rfl, -⟩
        exact absurd hother hmem

-- From the start of a run a slot is owed just if a wake-up was wasted, and one has been owed since.
theorem owes_runs_iff (h : s.Tidy) (howes : ¬ s.line.Owes) (events : List Event) :
    (s.runs events).line.Owes ↔ Since (fun before event => (s.runs before).Wastes event)
      (fun run => (s.runs run).line.Owes) events := by
  refine iff_since (fun run => (s.runs run).line.Owes) howes ?_
  intro before last _
  have hlast : s.runs (before ++ [last]) = (s.runs before).happen last := by
    rw [runs_append]
    rfl
  rw [hlast]
  constructor
  · intro howed
    refine ⟨?_, howed⟩
    by_cases hbefore : (s.runs before).line.Owes
    · exact .inl hbefore
    · exact .inr ((owes_happen_iff (h.runs before) hbefore last).mp howed)
  · exact fun howed => howed.2

-- No free slot is idle beside a call that could take it: if one is free, then all who wait ask
-- for a second slot for a job that has one.
def IsServed (s : Session) : Prop :=
  s.line.gate.free = 0 ∨ ∀ call ∈ s.line.waiting, s.line.gate.holds call.job = true

theorem Tidy.woken_eq_nil (h : s.Tidy) (hsettled : s.IsSettled) : s.line.woken = [] := by
  rw [List.eq_nil_iff_forall_not_mem]
  intro call hcall
  have hdue := h.woken_due call hcall
  simp [show s.agenda = [] from hsettled] at hdue

theorem Tidy.fresh_eq_nil (h : s.Tidy) (hsettled : s.IsSettled) : s.fresh = [] := by
  rw [List.eq_nil_iff_forall_not_mem]
  intro request hrequest
  have hdue := h.fresh_due request hrequest
  simp [show s.agenda = [] from hsettled] at hdue

theorem not_isServed_iff (h : s.Tidy) (hsettled : s.IsSettled) :
    ¬ s.IsServed ↔
      (∃ call ∈ s.line.waiting, s.line.gate.holds call.job = false) ∧ s.line.Owes := by
  have hwoken := h.woken_eq_nil hsettled
  simp only [IsServed, not_or, not_forall, Line.Owes, hwoken, List.length_nil]
  constructor
  · rintro ⟨hfree, call, hcall, hnone⟩
    exact ⟨⟨call, hcall, by simpa using hnone⟩, List.ne_nil_of_mem hcall, Nat.pos_of_ne_zero hfree⟩
  · rintro ⟨⟨call, hcall, hnone⟩, -, hfree⟩
    exact ⟨Nat.ne_of_gt hfree, call, hcall, by simp [hnone]⟩

end Gate.Session

end Foreman
