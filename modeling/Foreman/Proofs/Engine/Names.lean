import Foreman.Proofs.Engine.Life
import Mathlib.Data.List.Induction

namespace Foreman.Engine

-- The names that new jobs get in a run.
def named (moves : List Move) : List JobId := moves.filterMap Move.names?

-- No two jobs ever get the same name, not even after the first of them is gone.
def NamesApart (moves : List Move) : Prop := (named moves).Nodup

instance (moves : List Move) : Decidable (NamesApart moves) :=
  inferInstanceAs (Decidable (named moves).Nodup)

variable {b : Blueprint} {around : Surroundings} {t : Timeline} {s : State} {l : Loans}
  {move : Move} {moves earlier later : List Move} {slots : Nat} {id : JobId} {life : Life}
  {past : List AttemptRecord} {calls : Bool}

theorem named_append (first second : List Move) :
    named (first ++ second) = named first ++ named second :=
  List.filterMap_append

theorem NamesApart.of_append (h : NamesApart (earlier ++ later)) : NamesApart earlier := by
  simp only [NamesApart, named_append] at h
  exact List.Nodup.of_append_left h

theorem NamesApart.not_mem_later (h : NamesApart (earlier ++ later)) (hid : id ∈ named earlier) :
    id ∉ named later := by
  simp only [NamesApart, named_append] at h
  exact fun hagain => List.disjoint_of_nodup_append h hid hagain

-- A name that is given at some point is given neither before nor later.
theorem NamesApart.split (h : NamesApart (earlier ++ move :: later))
    (hname : move.names? = some id) : id ∉ named earlier ∧ id ∉ named later := by
  simp only [NamesApart, named_append] at h
  have hnamed : named (move :: later) = id :: named later := by
    simp only [named, List.filterMap_cons, hname]
  rw [hnamed] at h
  exact ⟨fun hid => List.disjoint_of_nodup_append h hid List.mem_cons_self,
    (List.nodup_cons.mp (List.Nodup.of_append_right h)).1⟩

theorem names?_ne_of_not_mem (h : id ∉ named moves) (hmove : move ∈ moves) :
    move.names? ≠ some id :=
  fun hname => h (List.mem_filterMap.mpr ⟨move, hmove, hname⟩)

-- There has been no job of this name, and the books of the past are all that there is about it.
-- Attempts at it may have been asked for in advance, and come to nothing.
structure Life.Unknown (past : List AttemptRecord) (life : Life) : Prop where
  record : life.record = none
  entries : life.entries = []
  tasks : ∀ task ∈ life.tasks, task.stage = .starting
  paths : life.paths = []
  attempts : life.attempts = past
  evicted : life.isEvicted = false

-- A job has just got a record, and nothing else has become of it.
structure Life.New (past : List AttemptRecord) (life : Life) : Prop where
  record : ∃ job, life.record = some job ∧ job.status = .pending ∧ job.retries = 0
  tasks : ∀ task ∈ life.tasks, task.stage = .starting
  attempts : life.attempts = past

-- A job that nothing is known of can only be named, and its operation is not called.
theorem Life.Unknown.turn_cases (h : (s.life id).Unknown past)
    (hturn : Turn s move id calls life) :
    calls = false ∧ (life.Unknown past ∨ (move.names? = some id ∧ life.New past)) := by
  have hrecord : ∀ {job : Job}, (s.life id).record ≠ some job := by simp [h.record]
  cases hturn with
  | still => exact ⟨rfl, .inl h⟩
  | created params maxRetries hmove _ =>
    exact ⟨rfl, .inr ⟨hmove, ⟨_, rfl, rfl, rfl⟩, h.tasks, h.attempts⟩⟩
  | submitted hmove _ _ hnew priority =>
    obtain ⟨params, maxRetries, rfl⟩ := hnew
    exact ⟨rfl, .inr ⟨hmove, ⟨_, rfl, rfl, rfl⟩, h.tasks, h.attempts⟩⟩
  | prioritized _ _ hjob _ => exact absurd hjob hrecord
  | queued _ _ hjob _ _ => exact absurd hjob hrecord
  | taken _ hentries => exact absurd h.entries hentries
  | admitted ticket requeues _ => exact ⟨rfl, .inl { h with entries := rfl, tasks := by simp }⟩
  | begun _ _ hjob _ => exact absurd hjob hrecord
  | skipped _ _ _ =>
    refine ⟨rfl, .inl { h with tasks := by simp, attempts := ?_ }⟩
    simpa [Life.attempts] using h.attempts
  | progressed _ hjob _ => exact absurd hjob hrecord
  | ended _ _ hjob _ _ _ => exact absurd hjob hrecord
  | claimed _ hjob => exact absurd hjob hrecord
  | released _ => exact ⟨rfl, .inl { h with paths := rfl }⟩
  | withdrawn _ hentries _ => exact absurd h.entries hentries
  | discarded _ hentries _ _ => exact absurd h.entries hentries
  | evicted hjob _ => exact absurd hjob hrecord

theorem Life.Unknown.turn (h : (s.life id).Unknown past) (hname : move.names? ≠ some id)
    (hturn : Turn s move id calls life) : life.Unknown past := by
  obtain ⟨-, hunknown | ⟨hmove, -⟩⟩ := h.turn_cases hturn
  · exact hunknown
  · exact absurd hmove hname

namespace Loans

-- If no two jobs get the same name, a new job never gets the name of one that is there.
theorem Regular.lawful (h : l.Regular slots)
    (hunknown : ∀ id, (l.state.life id).Unknown (l.state.life id).attempts)
    (hhonest : l.Honest moves) (hapart : NamesApart moves) :
    l.Lawful moves ∧ ∀ id ∉ named moves,
      ((l.run moves).state.life id).Unknown (l.state.life id).attempts := by
  induction moves using List.reverseRecOn with
  | nil => exact ⟨trivial, fun id _ => hunknown id⟩
  | append_singleton moves last ih =>
    obtain ⟨hhonest, hreturns, -⟩ := follows_append.mp hhonest
    obtain ⟨hlawful, hblank⟩ := ih hhonest hapart.of_append
    have hfresh : (l.run moves).state.NamesAfresh last := fun id hname =>
      Ledger.contains_eq_false_iff.mpr (hblank id (hapart.split hname).1).record
    refine ⟨follows_append.mpr ⟨hlawful, ⟨hreturns, hfresh⟩, trivial⟩, fun id hid => ?_⟩
    rw [named_append, List.mem_append, not_or] at hid
    have hname := names?_ne_of_not_mem hid.2 (List.mem_singleton.mpr rfl)
    rw [run_append]
    exact (hblank id hid.1).turn hname ((hlawful.regular h).turn hfresh id)

end Loans

namespace Blueprint

theorem unknown_initial (b : Blueprint) (around : Surroundings) (id : JobId) :
    ((b.initial around).life id).Unknown ((b.initial around).life id).attempts := by
  constructor <;> simp [State.life, Annals.life, State.annals, initial, Ledger.get?, Ledger.empty,
    Queue.entriesOf, Queue.ofCapacity, tasksOf, Registry.paths, Registry.ofHome]

variable (hbuild : b.build around = .ok t)

include hbuild

theorem unknown_of_start (id : JobId) :
    (t.state.life id).Unknown (t.state.life id).attempts :=
  state_of_build hbuild ▸ unknown_initial b around id

theorem lawful_of_build (hhonest : (Loans.ofState t.state).Honest moves)
    (hapart : NamesApart moves) : (Loans.ofState t.state).Lawful moves :=
  ((regular_of_build hbuild).lawful (unknown_of_start hbuild) hhonest hapart).1

theorem unknown_of_build (hhonest : (Loans.ofState t.state).Honest moves)
    (hapart : NamesApart moves) (hid : id ∉ named moves) :
    (((Loans.ofState t.state).run moves).state.life id).Unknown (t.state.life id).attempts :=
  ((regular_of_build hbuild).lawful (unknown_of_start hbuild) hhonest hapart).2 id hid

-- How things are when a move of a run is made.
theorem regular_midway (hhonest : (Loans.ofState t.state).Honest (earlier ++ move :: later))
    (hapart : NamesApart (earlier ++ move :: later)) :
    ((Loans.ofState t.state).run earlier).Regular (b.slots around) ∧
      ((Loans.ofState t.state).run earlier).state.NamesAfresh move ∧
      ∀ id, move.names? = some id → (((Loans.ofState t.state).run earlier).state.life id).Unknown
        (t.state.life id).attempts := by
  obtain ⟨hlawful, ⟨-, hfresh⟩, -⟩ :=
    Loans.follows_append.mp (lawful_of_build hbuild hhonest hapart)
  refine ⟨Loans.Lawful.regular hlawful (regular_of_build hbuild), hfresh, fun id hname => ?_⟩
  exact unknown_of_build hbuild (Loans.follows_append.mp hhonest).1 hapart.of_append
    (hapart.split hname).1

end Blueprint

end Foreman.Engine
