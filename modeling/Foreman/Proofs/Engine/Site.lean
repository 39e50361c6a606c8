import Foreman.Proofs.Engine.Crew
import Foreman.Proofs.Engine.Loans
import Foreman.Proofs.Engine.Timing

namespace Foreman.Engine

-- What a call of stop waits for: that the one who polled is gone, and then whoever did the upkeep.
inductive Pause where
  | poller (tag : Nat)
  | keeper (tag : Nat)
  | over
  deriving DecidableEq, Repr

-- An engine with those who poll and those who do the upkeep, and how far each call of stop has
-- come. The times at which something is due are theirs and not the engine's.
structure Site where
  loans : Loans
  pollers : Crew Point
  keepers : Crew Upkeep
  stops : List Pause

-- What happens next: a move from outside or of an attempt, a turn of a worker, or a look of a call
-- of stop whether it may go on.
inductive Act where
  | move (move : Move)
  | poll (tag : Nat)
  | keep (tag : Nat)
  | resume (call : Nat)

namespace Site

def state (s : Site) : State := s.loans.state

def ofState (s : State) : Site := ⟨Loans.ofState s, .empty, .empty, []⟩

def withState (s : Site) (state : State) : Site := { s with loans := ⟨state, s.loans.lent⟩ }

def start (s : Site) : Site :=
  { s with
    pollers := s.pollers.hire (.asleep s.state.now)
    keepers := s.keepers.hire ⟨s.state.now, s.state.now⟩ }

def stopUpkeep (s : Site) : Pause × Site :=
  (match s.keepers.handle with
    | some tag => .keeper tag
    | none => .over, { s with keepers := s.keepers.dismiss })

-- A call of stop tells the one who polls to go. With nobody there it goes on with the upkeep.
def stop (s : Site) : Site :=
  match s.pollers.handle with
  | some tag => { s with pollers := s.pollers.dismiss, stops := s.stops ++ [.poller tag] }
  | none =>
    let (pause, s) := s.stopUpkeep
    { s with stops := s.stops ++ [pause] }

def resume (s : Site) (call : Nat) : Site :=
  match s.stops[call]? with
  | some (.poller tag) =>
    if s.pollers.isGone tag then
      let (pause, s) := s.stopUpkeep
      { s with stops := s.stops.set call pause }
    else s
  | some (.keeper tag) =>
    if s.keepers.isGone tag then { s with stops := s.stops.set call .over } else s
  | some .over | none => s

-- Polling and upkeep are work, and not moves that come from outside.
def make (s : Site) : Move → Site
  | .start => s.start
  | .stop => s.stop
  | .poll | .maintain => s
  | move => { s with loans := s.loans.make move }

def poll (s : Site) (tag : Nat) : Site :=
  match s.pollers.worker? tag with
  | none => s
  | some worker =>
    if worker.aborted then
      { s.withState (s.state.letGo worker.duty) with pollers := s.pollers.leave tag }
    else
      let (point, state) := s.state.turn worker.duty
      { s.withState state with pollers := s.pollers.assign tag point }

def keep (s : Site) (tag : Nat) : Site :=
  match s.keepers.worker? tag with
  | none => s
  | some worker =>
    if worker.aborted then { s with keepers := s.keepers.leave tag }
    else if worker.duty.due ≤ s.state.now then
      let done := s.state.maintain worker.duty
      { s.withState (done.timed none none) with
        keepers := s.keepers.assign tag (done.upkeep.getD worker.duty) }
    else s

def act (s : Site) : Act → Site
  | .move move => s.make move
  | .poll tag => s.poll tag
  | .keep tag => s.keep tag
  | .resume call => s.resume call

def run (s : Site) (acts : List Act) : Site := acts.foldl act s

-- Nobody gives back what is not theirs, and no new job takes the name of another.
def Allows (s : Site) : Act → Prop
  | .move move => s.loans.ReturnsOwn move ∧ s.state.NamesAfresh move
  | .poll _ | .keep _ | .resume _ => True

def Lawful : Site → List Act → Prop
  | _, [] => True
  | s, act :: acts => s.Allows act ∧ Lawful (s.act act) acts

instance decidableAllows (s : Site) : (act : Act) → Decidable (s.Allows act)
  | .move move => inferInstanceAs (Decidable (s.loans.ReturnsOwn move ∧ s.state.NamesAfresh move))
  | .poll _ | .keep _ | .resume _ => .isTrue trivial

instance decidableLawful : (s : Site) → (acts : List Act) → Decidable (s.Lawful acts)
  | _, [] => .isTrue trivial
  | s, act :: acts =>
    have := decidableLawful (s.act act) acts
    inferInstanceAs (Decidable (s.Allows act ∧ Lawful (s.act act) acts))

-- The workers at the places where they are between two turns, and an engine that leaves all work
-- to them.
structure Sound (s : Site) : Prop where
  pollers : s.pollers.Sound
  keepers : s.keepers.Sound
  asleep : s.pollers.Every fun point => ∃ due, point = .asleep due
  poll : s.state.poll = none
  upkeep : s.state.upkeep = none

variable {s : Site} {move : Move} {first second : List Act} {tag call : Nat}

theorem run_append (s : Site) (first second : List Act) :
    s.run (first ++ second) = (s.run first).run second := by
  simp [run]

theorem sound_ofState {state : State} (hpoll : state.poll = none)
    (hupkeep : state.upkeep = none) : (ofState state).Sound where
  pollers := Crew.sound_empty
  keepers := Crew.sound_empty
  asleep := nofun
  poll := hpoll
  upkeep := hupkeep

-- A stop begins with both handles gone, or with that of the one who polls.
theorem stop_cases (s : Site) :
    (∃ tag, s.pollers.handle = some tag ∧
      s.stop = { s with pollers := s.pollers.dismiss, stops := s.stops ++ [.poller tag] }) ∨
    s.pollers.handle = none ∧
      s.stop = { s with
        keepers := s.keepers.dismiss
        stops := s.stops ++ [s.stopUpkeep.1] } := by
  unfold stop
  cases hhandle : s.pollers.handle with
  | some tag => exact .inl ⟨tag, rfl, rfl⟩
  | none => exact .inr ⟨rfl, rfl⟩

theorem resume_cases (s : Site) (call : Nat) :
    s.resume call = s ∨
    (∃ tag, s.stops[call]? = some (.poller tag) ∧ s.pollers.isGone tag = true ∧
      s.resume call = { s with
        keepers := s.keepers.dismiss
        stops := s.stops.set call s.stopUpkeep.1 }) ∨
    ∃ tag, s.stops[call]? = some (.keeper tag) ∧ s.keepers.isGone tag = true ∧
      s.resume call = { s with stops := s.stops.set call .over } := by
  unfold resume
  split
  · split
    · exact .inr (.inl ⟨_, ‹_›, ‹_›, rfl⟩)
    · exact .inl rfl
  · split
    · exact .inr (.inr ⟨_, ‹_›, ‹_›, rfl⟩)
    · exact .inl rfl
  · exact .inl rfl
  · exact .inl rfl

theorem handle_stop (s : Site) : s.stop.pollers.handle = none := by
  rcases s.stop_cases with ⟨tag, -, heq⟩ | ⟨hhandle, heq⟩
  · rw [heq]
    rfl
  · rw [heq]
    exact hhandle

theorem loans_stop (s : Site) : s.stop.loans = s.loans := by
  rcases s.stop_cases with ⟨tag, -, heq⟩ | ⟨-, heq⟩
  · rw [heq]
  · rw [heq]

theorem loans_resume (s : Site) (call : Nat) : (s.resume call).loans = s.loans := by
  rcases s.resume_cases call with heq | ⟨tag, -, -, heq⟩ | ⟨tag, -, -, heq⟩
  · rw [heq]
  · rw [heq]
  · rw [heq]

-- Only a start and a stop, and those who poll, have to do with who polls. Only the calls of stop
-- have to do with how far these have come.
theorem pollers_resume (s : Site) (call : Nat) : (s.resume call).pollers = s.pollers := by
  rcases s.resume_cases call with heq | ⟨tag, -, -, heq⟩ | ⟨tag, -, -, heq⟩
  · rw [heq]
  · rw [heq]
  · rw [heq]

theorem stops_poll (s : Site) (tag : Nat) : (s.poll tag).stops = s.stops := by
  unfold poll
  split
  · rfl
  · split
    · rfl
    · rfl

-- A turn of one who polls: nobody is there, someone goes who has nothing in hand, someone goes on
-- sleeping, or whatever there are slots for leaves the queue.
theorem Sound.poll_cases (h : s.Sound) (tag : Nat) :
    s.poll tag = s ∨
    (∃ worker ∈ s.pollers.workers, worker.tag = tag ∧ worker.aborted = true ∧
      s.poll tag = { s with pollers := s.pollers.leave tag }) ∨
    ∃ worker ∈ s.pollers.workers, worker.tag = tag ∧ worker.aborted = false ∧
      ∃ due, worker.duty = .asleep due ∧
        ((¬ due ≤ s.state.now ∧
            s.poll tag = { s with pollers := s.pollers.assign tag (.asleep due) }) ∨
          due ≤ s.state.now ∧ s.poll tag = { s.withState s.state.burst with
            pollers := s.pollers.assign tag
              (.asleep (Span.wakeAfter s.state.now s.state.config.poll.toMillis)) }) := by
  unfold Site.poll
  split
  · exact .inl rfl
  · rename_i worker hfound
    obtain ⟨hworker, htag⟩ := Crew.worker?_mem hfound
    obtain ⟨due, hduty⟩ := h.asleep worker hworker
    refine .inr ?_
    split
    · refine .inl ⟨worker, hworker, htag, ‹_›, ?_⟩
      rw [hduty]
      rfl
    · refine .inr ⟨worker, hworker, htag, by simpa using ‹¬ worker.aborted = true›, due, hduty, ?_⟩
      rw [hduty]
      by_cases hdue : due ≤ s.state.now
      · rw [State.turn_of_due hdue]
        exact .inr ⟨hdue, rfl⟩
      · rw [State.turn_of_early hdue]
        exact .inl ⟨hdue, rfl⟩

theorem keep_cases (s : Site) (tag : Nat) :
    s.keep tag = s ∨
    (∃ worker ∈ s.keepers.workers, worker.tag = tag ∧ worker.aborted = true ∧
      s.keep tag = { s with keepers := s.keepers.leave tag }) ∨
    ∃ worker ∈ s.keepers.workers, worker.tag = tag ∧ worker.aborted = false ∧
      worker.duty.due ≤ s.state.now ∧
      s.keep tag = { s.withState ((s.state.maintain worker.duty).timed none none) with
        keepers := s.keepers.assign tag
          ((s.state.maintain worker.duty).upkeep.getD worker.duty) } := by
  unfold keep
  split
  · exact .inl rfl
  · rename_i worker hfound
    obtain ⟨hworker, htag⟩ := Crew.worker?_mem hfound
    split
    · exact .inr (.inl ⟨worker, hworker, htag, ‹_›, rfl⟩)
    · split
      · exact .inr (.inr ⟨worker, hworker, htag, by simpa using ‹¬ worker.aborted = true›,
          ‹_›, rfl⟩)
      · exact .inl rfl

theorem pollers_keep (s : Site) (tag : Nat) : (s.keep tag).pollers = s.pollers := by
  rcases s.keep_cases tag with heq | ⟨worker, -, -, -, heq⟩ | ⟨worker, -, -, -, -, heq⟩
  · rw [heq]
  · rw [heq]
  · rw [heq]
    rfl

theorem stops_keep (s : Site) (tag : Nat) : (s.keep tag).stops = s.stops := by
  rcases s.keep_cases tag with heq | ⟨worker, -, -, -, heq⟩ | ⟨worker, -, -, -, -, heq⟩
  · rw [heq]
  · rw [heq]
  · rw [heq]
    rfl

theorem lawful_append :
    s.Lawful (first ++ second) ↔ s.Lawful first ∧ (s.run first).Lawful second := by
  induction first generalizing s with
  | nil => simp [Lawful, run]
  | cons act acts ih =>
    simp only [List.cons_append, Lawful, ih, and_assoc]
    rfl

theorem make_of_untimed (h : move.isTimed = false) :
    s.make move = { s with loans := s.loans.make move } := by
  cases move with
  | start | stop | poll | maintain => cases h
  | _ => rfl

namespace Sound

variable (h : s.Sound)

include h

theorem start : s.start.Sound where
  pollers := h.pollers.hire _
  keepers := h.keepers.hire _
  asleep := h.asleep.hire ⟨_, rfl⟩
  poll := h.poll
  upkeep := h.upkeep

theorem stop : s.stop.Sound := by
  rcases s.stop_cases with ⟨tag, hhandle, heq⟩ | ⟨hhandle, heq⟩
  · rw [heq]
    exact { h with pollers := h.pollers.dismiss, asleep := h.asleep.dismiss }
  · rw [heq]
    exact { h with keepers := h.keepers.dismiss }

theorem engine (hplain : move.isTimed = false ∨ ∃ now, move = .pass now) :
    ({ s with loans := s.loans.make move } : Site).Sound := by
  have hidle : (s.state.apply move).poll = none ∧ (s.state.apply move).upkeep = none := by
    rcases hplain with hplain | ⟨now, rfl⟩
    · exact State.idle_apply hplain h.poll h.upkeep
    · obtain ⟨hpoll, hupkeep⟩ := s.state.idle_pass now
      exact ⟨hpoll.trans h.poll, hupkeep.trans h.upkeep⟩
  exact { h with poll := hidle.1, upkeep := hidle.2 }

theorem make (move : Move) : (s.make move).Sound := by
  cases move with
  | start => exact h.start
  | stop => exact h.stop
  | poll => exact h
  | maintain => exact h
  | pass now => exact h.engine (.inr ⟨now, rfl⟩)
  | _ => exact h.engine (.inl rfl)

theorem resume (call : Nat) : (s.resume call).Sound := by
  rcases s.resume_cases call with heq | ⟨tag, -, -, heq⟩ | ⟨tag, -, -, heq⟩
  · rw [heq]
    exact h
  · rw [heq]
    exact { h with keepers := h.keepers.dismiss }
  · rw [heq]
    exact { h with }

theorem poll_turn (tag : Nat) : (s.poll tag).Sound := by
  rcases h.poll_cases tag with heq | ⟨worker, hworker, rfl, haborted, heq⟩ |
    ⟨worker, -, rfl, -, due, -, ⟨-, heq⟩ | ⟨-, heq⟩⟩
  · rw [heq]
    exact h
  · rw [heq]
    exact { h with pollers := h.pollers.leave hworker haborted, asleep := h.asleep.leave _ }
  · rw [heq]
    exact { h with pollers := h.pollers.assign _ _, asleep := h.asleep.assign _ ⟨_, rfl⟩ }
  · obtain ⟨-, -, hpoll, hupkeep⟩ := State.burstWithin_clock s.state.queue.length s.state
    rw [heq]
    exact
      { pollers := h.pollers.assign _ _
        keepers := h.keepers
        asleep := h.asleep.assign _ ⟨_, rfl⟩
        poll := hpoll.trans h.poll
        upkeep := hupkeep.trans h.upkeep }

theorem keep_turn (tag : Nat) : (s.keep tag).Sound := by
  rcases s.keep_cases tag with heq | ⟨worker, hworker, rfl, haborted, heq⟩ |
    ⟨worker, -, rfl, -, -, heq⟩
  · rw [heq]
    exact h
  · rw [heq]
    exact { h with keepers := h.keepers.leave hworker haborted }
  · rw [heq]
    exact { h with keepers := h.keepers.assign _ _, poll := rfl, upkeep := rfl }

theorem act (act : Act) : (s.act act).Sound := by
  cases act with
  | move move => exact h.make move
  | poll tag => exact h.poll_turn tag
  | keep tag => exact h.keep_turn tag
  | resume call => exact h.resume call

theorem run (acts : List Act) : (s.run acts).Sound := by
  induction acts generalizing s with
  | nil => exact h
  | cons act acts ih => exact ih (h.act act)

-- What an act makes of an engine: nothing, or what a move makes of it, or what is done in a turn
-- of someone who works.
theorem loans_act (act : Act) :
    (s.act act).loans = s.loans ∨
    (∃ move, act = .move move ∧ move ≠ .poll ∧ (s.act act).loans = s.loans.make move) ∨
    (∃ worker ∈ s.pollers.workers, act = .poll worker.tag ∧ worker.aborted = false ∧
      (s.act act).loans = ⟨s.state.burst, s.loans.lent⟩) ∨
    ∃ worker ∈ s.keepers.workers, act = .keep worker.tag ∧
      (s.act act).loans = ⟨(s.state.maintain worker.duty).timed none none, s.loans.lent⟩ := by
  cases act with
  | move move =>
    cases move with
    | start => exact .inl rfl
    | stop => exact .inl s.loans_stop
    | poll => exact .inl rfl
    | maintain => exact .inl rfl
    | _ => exact .inr (.inl ⟨_, rfl, nofun, rfl⟩)
  | poll tag =>
    rcases h.poll_cases tag with heq | ⟨worker, -, -, -, heq⟩ |
      ⟨worker, hworker, rfl, hactive, due, -, ⟨-, heq⟩ | ⟨-, heq⟩⟩
    · exact .inl (by rw [Site.act, heq])
    · exact .inl (by rw [Site.act, heq])
    · exact .inl (by rw [Site.act, heq])
    · exact .inr (.inr (.inl ⟨worker, hworker, rfl, hactive, congrArg loans heq⟩))
  | keep tag =>
    rcases s.keep_cases tag with heq | ⟨worker, -, -, -, heq⟩ | ⟨worker, hworker, rfl, -, -, heq⟩
    · exact .inl (by rw [Site.act, heq])
    · exact .inl (by rw [Site.act, heq])
    · exact .inr (.inr (.inr ⟨worker, hworker, rfl, congrArg loans heq⟩))
  | resume call => exact .inl (s.loans_resume call)

end Sound

end Site

end Foreman.Engine
