import Foreman.Proofs.Engine.Site

namespace Foreman.Engine

def Point.due? : Point → Option Nat
  | asleep due => some due
  | looking | handing _ => none

namespace Site

variable {s : Site} {move : Move} {tag call now : Nat} {poller : Worker Point}
  {keeper : Worker Upkeep}

-- How a site looks to someone who sees only when something is due, and not who will do it.
def view (s : Site) : State := s.state.timed (s.pollers.duty?.bind Point.due?) s.keepers.duty?

theorem view_ofState {state : State} (hpoll : state.poll = none) (hupkeep : state.upkeep = none) :
    (ofState state).view = state := by
  have hsame : (ofState state).view = state.timed none none := rfl
  rw [hsame, ← hpoll, ← hupkeep, State.timed_self]

namespace Sound

variable (h : s.Sound)

include h

theorem view_start : s.start.view = s.view.start := by
  have hpoll : (s.pollers.duty?.getD (.asleep s.state.now)).due? =
      some ((s.pollers.duty?.bind Point.due?).getD s.state.now) := by
    cases hduty : s.pollers.duty? with
    | none => rfl
    | some point =>
      obtain ⟨due, rfl⟩ : ∃ due, point = .asleep due := h.asleep.duty? hduty
      rfl
  rw [view, view, Site.start, h.pollers.duty?_hire, h.keepers.duty?_hire, Option.bind_some, hpoll]
  rfl

-- When the one who polls wakes up, the queue is looked at as in polling.
theorem view_poll (hpoller : poller ∈ s.pollers.workers)
    (hhandle : s.pollers.handle = some poller.tag) :
    (s.poll poller.tag).view = s.view.apply .poll := by
  have hactive := (h.pollers.active poller hpoller).mpr hhandle
  obtain ⟨due, hduty⟩ := h.asleep poller hpoller
  have hview : s.view = s.state.timed (some due) s.keepers.duty? := by
    rw [view, h.pollers.duty?_eq hpoller hhandle, hduty]
    rfl
  have happly : s.view.apply .poll =
      if due ≤ s.state.now then (s.state.timed (some due) s.keepers.duty?).pollQueue
      else s.state.timed (some due) s.keepers.duty? := by
    rw [hview]
    rfl
  simp only [Site.poll, h.pollers.worker?_eq hpoller, hactive, hduty, Bool.false_eq_true, if_false]
  rw [happly]
  by_cases hdue : due ≤ s.state.now
  · rw [if_pos hdue, State.turn_of_due hdue, State.timed_pollQueue, view,
      h.pollers.duty?_assign hpoller hhandle]
    rfl
  · rw [if_neg hdue, State.turn_of_early hdue, view, h.pollers.duty?_assign hpoller hhandle]
    rfl

theorem view_keep (hkeeper : keeper ∈ s.keepers.workers)
    (hhandle : s.keepers.handle = some keeper.tag) :
    (s.keep keeper.tag).view = s.view.apply .maintain := by
  have hactive := (h.keepers.active keeper hkeeper).mpr hhandle
  have hview : s.view = s.state.timed (s.pollers.duty?.bind Point.due?) (some keeper.duty) := by
    rw [view, h.keepers.duty?_eq hkeeper hhandle]
  have happly : s.view.apply .maintain =
      if keeper.duty.due ≤ s.state.now then s.view.maintain keeper.duty else s.view := by
    rw [hview]
    rfl
  simp only [Site.keep, h.keepers.worker?_eq hkeeper, hactive, Bool.false_eq_true, if_false]
  rw [happly]
  by_cases hdue : keeper.duty.due ≤ s.state.now
  · rw [if_pos hdue, if_pos hdue, hview, State.timed_maintain, view,
      h.keepers.duty?_assign hkeeper hhandle]
    obtain ⟨next, hnext⟩ := s.state.exists_upkeep_of_maintain keeper.duty
    rw [hnext]
    rfl
  · rw [if_neg hdue, if_neg hdue]

-- Whoever has been told to go does so at the next turn, and then whoever waits for it goes on.
theorem exists_poller_over : ∃ acts pollers, (∀ act ∈ acts, ∀ move, act ≠ .move move) ∧
    s.run (.move .stop :: acts) = { s with
      pollers := pollers
      keepers := s.keepers.dismiss
      stops := s.stops ++ [s.stopUpkeep.1] } ∧ pollers.handle = none := by
  rcases s.stop_cases with ⟨tag, hhandle, hstop⟩ | ⟨hhandle, hstop⟩
  · obtain ⟨poller, hpoller, rfl⟩ := h.pollers.present tag hhandle
    obtain ⟨gone, hmem, htag, haborted⟩ := Crew.exists_aborted hpoller hhandle
    have hfound := h.pollers.dismiss.worker?_eq hmem
    rw [htag] at hfound
    obtain ⟨due, hduty⟩ := h.asleep.dismiss gone hmem
    refine ⟨[.poll poller.tag, .resume s.stops.length], s.pollers.dismiss.leave poller.tag,
      by simp, ?_, rfl⟩
    have hpoll : s.stop.poll poller.tag = { s with
        pollers := s.pollers.dismiss.leave poller.tag
        stops := s.stops ++ [.poller poller.tag] } := by
      rw [hstop]
      simp only [Site.poll, hfound, haborted, hduty, if_true]
      rfl
    show (s.stop.poll poller.tag).resume s.stops.length = _
    rw [hpoll]
    simp [Site.resume, Crew.isGone_leave, stopUpkeep]
  · exact ⟨[], s.pollers, nofun, hstop, hhandle⟩

end Sound

-- No more is needed for the upkeep to end than a turn of the one who does it.
theorem exists_upkeep_over (h : s.keepers.Sound) {stops : List Pause}
    (hcall : stops[call]? = some s.stopUpkeep.1) :
    ∃ acts keepers stops', (∀ act ∈ acts, ∀ move, act ≠ .move move) ∧
      ({ s with keepers := s.keepers.dismiss, stops := stops } : Site).run acts =
        { s with keepers := keepers, stops := stops' } ∧
      stops'[call]? = some .over ∧ keepers.handle = none := by
  cases hhandle : s.keepers.handle with
  | none =>
    rw [stopUpkeep, hhandle] at hcall
    exact ⟨[], s.keepers.dismiss, stops, nofun, rfl, hcall, rfl⟩
  | some tag =>
    rw [stopUpkeep, hhandle] at hcall
    obtain ⟨keeper, hkeeper, rfl⟩ := h.present tag hhandle
    obtain ⟨aborted, hmem, htag, haborted⟩ := Crew.exists_aborted hkeeper hhandle
    refine ⟨[.keep keeper.tag, .resume call], s.keepers.dismiss.leave keeper.tag,
      stops.set call .over, by simp, ?_, ?_, rfl⟩
    · have hfound := h.dismiss.worker?_eq hmem
      rw [htag] at hfound
      simp [run, act, keep, hfound, haborted, resume, hcall, Crew.isGone_leave]
    · obtain ⟨hlt, -⟩ := List.getElem?_eq_some_iff.mp hcall
      simp [hlt]

theorem view_of_handles (hpoller : s.pollers.handle = none) (hkeeper : s.keepers.handle = none) :
    s.view = s.state.timed none none := by
  rw [view, Crew.duty?_of_handle hpoller, Crew.duty?_of_handle hkeeper, Option.bind_none]

namespace Sound

variable (h : s.Sound)

include h

-- A call of stop comes to an end if only those who have to go, and it, get their turns.
theorem exists_stop_over : ∃ acts, (∀ act ∈ acts, ∀ move, act ≠ .move move) ∧
    (s.run (.move .stop :: acts)).stops[s.stops.length]? = some .over ∧
    (s.run (.move .stop :: acts)).view = s.view.apply .stop := by
  obtain ⟨first, pollers, hfirst, hpoller, hnone⟩ := h.exists_poller_over
  have hcall : (s.stops ++ [s.stopUpkeep.1])[s.stops.length]? =
      some { s with pollers := pollers }.stopUpkeep.1 := by simp [stopUpkeep]
  obtain ⟨second, keepers, stops, hsecond, hkeeper, hover, hgone⟩ :=
    exists_upkeep_over (s := { s with pollers := pollers }) h.keepers hcall
  have hwhole : s.run (.move .stop :: (first ++ second)) =
      { s with pollers := pollers, keepers := keepers, stops := stops } := by
    rw [← List.cons_append, run_append, hpoller]
    exact hkeeper
  refine ⟨first ++ second, fun act hact => ?_, by rw [hwhole, hover], ?_⟩
  · exact (List.mem_append.mp hact).elim (hfirst act) (hsecond act)
  · rw [hwhole, view_of_handles (s := { s with pollers, keepers, stops }) hnone hgone]
    rfl

-- Whatever an engine does can be done by those who work for it.
theorem exists_acts_apply (move : Move) : ∃ acts, (s.run acts).view = s.view.apply move := by
  by_cases htimed : move.isTimed = false
  · refine ⟨[.move move], ?_⟩
    show (s.make move).view = _
    rw [make_of_untimed htimed]
    exact (State.timed_apply htimed).symm
  cases move with
  | start => exact ⟨[.move .start], h.view_start⟩
  | stop =>
    obtain ⟨acts, -, -, hview⟩ := h.exists_stop_over
    exact ⟨_, hview⟩
  | poll =>
    cases hhandle : s.pollers.handle with
    | none =>
      refine ⟨[], ?_⟩
      show s.view = _
      have hpoll : s.view.poll = none := by
        show s.pollers.duty?.bind Point.due? = none
        rw [Crew.duty?_of_handle hhandle, Option.bind_none]
      simp only [State.apply, hpoll]
    | some tag =>
      obtain ⟨poller, hpoller, rfl⟩ := h.pollers.present tag hhandle
      exact ⟨[.poll poller.tag], h.view_poll hpoller hhandle⟩
  | maintain =>
    cases hhandle : s.keepers.handle with
    | none =>
      refine ⟨[], ?_⟩
      show s.view = _
      have hupkeep : s.view.upkeep = none := Crew.duty?_of_handle hhandle
      simp only [State.apply, hupkeep]
    | some tag =>
      obtain ⟨keeper, hkeeper, rfl⟩ := h.keepers.present tag hhandle
      exact ⟨[.keep keeper.tag], h.view_keep hkeeper hhandle⟩
  | pass now =>
    by_cases hpass : s.view.now ≤ now ∧ s.view.nextDue.all (fun due => now ≤ due) = true
    · exact ⟨[.move (.pass now)], (State.timed_pass h.poll h.upkeep hpass).symm⟩
    · exact ⟨[], (if_neg hpass).symm⟩
  | _ => exact absurd rfl htimed

theorem exists_acts_run (moves : List Move) : ∃ acts, (s.run acts).view = s.view.run moves := by
  induction moves generalizing s with
  | nil => exact ⟨[], rfl⟩
  | cons move moves ih =>
    obtain ⟨first, hfirst⟩ := h.exists_acts_apply move
    obtain ⟨second, hsecond⟩ := ih (h.run first)
    refine ⟨first ++ second, ?_⟩
    rw [run_append, hsecond, hfirst]
    rfl

end Sound

end Site

end Foreman.Engine
