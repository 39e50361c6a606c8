import Foreman.Proofs.Engine.Names
import Foreman.Proofs.Since

namespace Foreman.Engine

variable {b : Blueprint} {around : Surroundings} {t : Timeline} {s : State} {l : Loans}
  {move : Move} {moves : List Move} {slots : Nat} {id : JobId} {past : List AttemptRecord}
  {a : Annals} {calls : Option JobId}

namespace State

-- A job is gone from the ledger, and its files stay protected.
def Leaked (s : State) (id : JobId) : Prop :=
  s.registry.paths id ≠ [] ∧ s.ledger.get? id = none

-- The move discards a job that has not started and has files.
def Leaks (s : State) (id : JobId) (move : Move) : Prop :=
  move = .withdrawJob id ∧ id ∈ s.queue.order ∧
    (∃ job, s.ledger.get? id = some job ∧ job.status = .pending) ∧ s.registry.paths id ≠ []

theorem leaked_of_leaks (h : s.Leaks id move) : (s.apply move).Leaked id := by
  obtain ⟨rfl, hqueued, ⟨job, hjob, hpending⟩, hpaths⟩ := h
  have herase : s.queue.erase? id = some (s.queue.without id) := by
    simp only [Queue.erase?, Queue.contains_iff.mpr hqueued, if_true]
    rfl
  rcases forget_cases { s with queue := s.queue.without id } id with
    ⟨found, ledger, -, -, hforget, -, hnone⟩ | ⟨-, hall⟩
  · simp only [apply, withdrawJob, herase, hforget]
    exact ⟨hpaths, hnone⟩
  · exact absurd hpending (hall job hjob)

theorem not_leaked_unprotect (s : State) (id : JobId) :
    ¬ (s.apply (.unprotect id)).Leaked id :=
  fun h => h.1 (Registry.paths_drop s.registry id)

end State

namespace Turn

variable {life : Life} {called : Bool}

-- Only a job that is discarded leaves files behind that are still its own.
theorem leaked_before (hturn : Turn s move id called life) (hpaths : life.paths ≠ [])
    (hrecord : life.record = none) : s.Leaked id ∨ s.Leaks id move := by
  cases hturn with
  | still => exact .inl ⟨hpaths, hrecord⟩
  | created _ _ _ _ => cases hrecord
  | submitted _ _ _ _ _ => cases hrecord
  | prioritized _ _ _ _ => cases hrecord
  | queued _ _ _ _ _ => cases hrecord
  | taken _ _ => exact .inl ⟨hpaths, hrecord⟩
  | admitted _ _ _ => exact .inl ⟨hpaths, hrecord⟩
  | begun _ _ _ _ => cases hrecord
  | skipped _ _ _ => exact .inl ⟨hpaths, hrecord⟩
  | progressed _ _ _ => cases hrecord
  | ended _ _ _ _ _ _ => cases hrecord
  | claimed path hjob =>
    have hnone : (s.life id).record = none := hrecord
    rw [hjob] at hnone
    cases hnone
  | released _ => exact absurd rfl hpaths
  | withdrawn _ _ _ => exact .inl ⟨hpaths, hrecord⟩
  | discarded hmove hentries hjob hpending =>
    have hqueued : id ∈ s.queue.order := by
      by_contra hout
      exact hentries (Queue.entriesOf_eq_nil_iff.mpr hout)
    exact .inr ⟨hmove, hqueued, ⟨_, hjob, hpending⟩, hpaths⟩
  | evicted _ _ => exact absurd rfl hpaths

-- Files that are left behind stay so, since no job of that name is there any more.
theorem leaked_after (hturn : Turn s move id called life)
    (hname : move.names? = some id → (s.life id).Unknown past) (hmove : move ≠ .unprotect id)
    (h : s.Leaked id) : life.paths ≠ [] ∧ life.record = none := by
  obtain ⟨hpaths, hnone⟩ := h
  have hrecord : ∀ {job : Job}, (s.life id).record ≠ some job := by
    intro job hjob
    cases hnone.symm.trans hjob
  have hunnamed : move.names? ≠ some id := fun hmove => hpaths (hname hmove).paths
  cases hturn with
  | still => exact ⟨hpaths, hnone⟩
  | created _ _ hmove _ => exact absurd hmove hunnamed
  | submitted hmove _ _ _ _ => exact absurd hmove hunnamed
  | prioritized _ _ hjob _ => exact absurd hjob hrecord
  | queued _ _ hjob _ _ => exact absurd hjob hrecord
  | taken _ _ => exact ⟨hpaths, hnone⟩
  | admitted _ _ _ => exact ⟨hpaths, hnone⟩
  | begun _ _ hjob _ => exact absurd hjob hrecord
  | skipped _ _ _ => exact ⟨hpaths, hnone⟩
  | progressed _ hjob _ => exact absurd hjob hrecord
  | ended _ _ hjob _ _ _ => exact absurd hjob hrecord
  | claimed _ hjob => exact absurd hjob hrecord
  | released hreleased => exact absurd hreleased hmove
  | withdrawn _ _ _ => exact ⟨hpaths, hnone⟩
  | discarded _ _ hjob _ => exact absurd hjob hrecord
  | evicted hjob _ => exact absurd hjob hrecord

end Turn

theorem Loans.Regular.leaked_make_iff (h : l.Regular slots) (hfresh : l.state.NamesAfresh move)
    (hname : move.names? = some id → (l.state.life id).Unknown past) :
    (l.make move).state.Leaked id ↔
      (l.state.Leaked id ∨ l.state.Leaks id move) ∧ move ≠ .unprotect id := by
  have hturn := h.turn hfresh id
  constructor
  · intro hleaked
    refine ⟨hturn.leaked_before hleaked.1 hleaked.2, ?_⟩
    rintro rfl
    exact l.state.not_leaked_unprotect id hleaked
  · rintro ⟨hbefore | hleaks, hmove⟩
    · exact hturn.leaked_after hname hmove hbefore
    · exact State.leaked_of_leaks hleaks

theorem Loans.Lawful.extends_registry (hlawful : l.Lawful moves) (h : l.Regular slots) :
    l.state.registry.Extends (l.run moves).state.registry := by
  have hinv : (l.run moves).Regular slots ∧
      l.state.registry.Extends (l.run moves).state.registry := by
    refine Follows.invariant
      (fun l' => l'.Regular slots ∧ l.state.registry.Extends l'.state.registry) ?_ hlawful
      ⟨h, .same _⟩
    rintro l' move ⟨hregular, hextends⟩ ⟨hreturns, hfresh⟩
    exact ⟨hregular.make hreturns hfresh,
      hextends.trans (Annals.make_writes hregular hfresh).extends_registry⟩
  exact hinv.2

section

variable (hbuild : b.build around = .ok t) (hhonest : (Loans.ofState t.state).Honest moves)
  (hapart : NamesApart moves)

include hbuild hhonest hapart

theorem leaked_iff_since (id : JobId) : (t.state.run moves).Leaked id ↔
    Since (fun earlier move => (t.state.run earlier).Leaks id move)
      (fun run => run.getLast? ≠ some (.unprotect id)) moves := by
  refine iff_since (fun run => (t.state.run run).Leaked id) ?_ ?_
  · exact fun h => h.1 (Blueprint.unknown_of_start hbuild id).paths
  · rintro before last ⟨rest, hmoves⟩
    rw [List.append_assoc, List.singleton_append] at hmoves
    subst hmoves
    obtain ⟨hbefore, hfresh, hname⟩ := Blueprint.regular_midway hbuild hhonest hapart
    have hmake := hbefore.leaked_make_iff hfresh (hname id)
    rw [Loans.make_state, Loans.run_ofState] at hmake
    simp only [List.getLast?_append, List.getLast?_singleton, Option.some_or, ne_eq,
      Option.some_inj]
    rw [State.run_append]
    exact hmake

theorem distinct_of_build : (t.state.run moves).registry.Distinct := by
  have hlawful := Blueprint.lawful_of_build hbuild hhonest hapart
  rw [← Loans.run_ofState]
  refine (hlawful.extends_registry (Blueprint.regular_of_build hbuild)).distinct ?_
  rw [show (Loans.ofState t.state).state = b.initial around from Blueprint.state_of_build hbuild]
  exact List.nodup_nil

end

-- Files of a job that is gone stay protected just if it was discarded with them and nobody has
-- released them since. Any other file is protected by a job in the ledger, or not at all.
theorem protected_iff (hbuild : b.build around = .ok t)
    (hhonest : (Loans.ofState t.state).Honest moves) (hapart : NamesApart moves) :
    (∀ id, (t.state.run moves).Leaked id ↔
      Since (fun earlier move => (t.state.run earlier).Leaks id move)
        (fun run => run.getLast? ≠ some (.unprotect id)) moves) ∧
    ∀ p, (t.state.run moves).registry.isClaimed p = true ↔
      ∃ id, (∃ q ∈ (t.state.run moves).registry.paths id,
          (t.state.run moves).registry.isSame p q = true) ∧
        ((∃ job, (t.state.run moves).ledger.get? id = some job) ∨
          Since (fun earlier move => (t.state.run earlier).Leaks id move)
            (fun run => run.getLast? ≠ some (.unprotect id)) moves) := by
  have hleaked := leaked_iff_since hbuild hhonest hapart
  refine ⟨hleaked, fun p => ?_⟩
  rw [Registry.isClaimed_iff (distinct_of_build hbuild hhonest hapart)]
  refine exists_congr fun id => ⟨?_, fun h => h.1⟩
  rintro ⟨q, hq, hsame⟩
  refine ⟨⟨q, hq, hsame⟩, ?_⟩
  cases hjob : (t.state.run moves).ledger.get? id with
  | some job => exact .inl ⟨job, rfl⟩
  | none => exact .inr ((hleaked id).mp ⟨List.ne_nil_of_mem hq, hjob⟩)

-- A job is discarded before it has started, and with a file.
def discardedClaim : List Move :=
  [.submit ⟨1⟩ [] 5 none, .protect ⟨1⟩ "/srv/out/video.mp4", .withdrawJob ⟨1⟩]

theorem protected_iff_discardedClaim :
    ∃ t, (Blueprint.idle 1).build default = .ok t ∧
      (Loans.ofState t.state).Honest discardedClaim ∧ NamesApart discardedClaim ∧
      ((t.state.run discardedClaim).Leaked ⟨1⟩ ↔
        Since (fun earlier move => (t.state.run earlier).Leaks ⟨1⟩ move)
          (fun run => run.getLast? ≠ some (.unprotect ⟨1⟩)) discardedClaim) := by
  have hbuild : (Blueprint.idle 1).build default = .ok _ := rfl
  refine ⟨_, hbuild, ?_, ?_, (protected_iff hbuild ?_ ?_).1 ⟨1⟩⟩
  · decide
  · decide
  · decide
  · decide

-- The file stays protected with no job that it could belong to, and nothing more happens.
theorem discardedClaim_leaked :
    ∃ t, (Blueprint.idle 1).build default = .ok t ∧
      (Loans.ofState t.state).Honest discardedClaim ∧ NamesApart discardedClaim ∧
      ({ t with state := t.state.run discardedClaim } : Timeline).step?.isNone = true ∧
      (t.state.run discardedClaim).Leaked ⟨1⟩ ∧
      (t.state.run discardedClaim).ledger.jobs = [] ∧
      (t.state.run discardedClaim).registry.isClaimed
        (Path.ofText "/srv/out/video.mp4") = true := by
  refine ⟨_, rfl, ?_, ?_, ?_, ⟨?_, ?_⟩, ?_, ?_⟩
  · decide
  · decide
  · decide
  · decide
  · rfl
  · rfl
  · decide

end Foreman.Engine
