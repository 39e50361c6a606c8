import Foreman.Proofs.Engine.Turns

namespace Foreman.Engine

-- An engine on several threads together with the slots that are lent out.
structure ThreadLoans where
  threads : Threads
  lent : List JobId

namespace ThreadLoans

def ofState (s : State) : ThreadLoans := ⟨Threads.ofState s, []⟩

def loans (l : ThreadLoans) : Loans := ⟨l.threads.state, l.lent⟩

def make (l : ThreadLoans) (step : Step) : ThreadLoans where
  threads := l.threads.apply step
  lent := match step with
    | .whole move => (l.loans.make move).lent
    | _ => l.lent

def run (l : ThreadLoans) (steps : List Step) : ThreadLoans := steps.foldl make l

def ReturnsOwn (l : ThreadLoans) : Step → Prop
  | .whole move => l.loans.ReturnsOwn move
  | _ => True

def NamesAfresh (l : ThreadLoans) : Step → Prop
  | .whole move => l.threads.state.NamesAfresh move
  | _ => True

-- Every step of a run is allowed when it is taken.
def Follows (allowed : ThreadLoans → Step → Prop) : ThreadLoans → List Step → Prop
  | _, [] => True
  | l, step :: steps => allowed l step ∧ Follows allowed (l.make step) steps

-- Nobody gives back what is not theirs, whatever goes on in between.
def Honest (l : ThreadLoans) (steps : List Step) : Prop := Follows ReturnsOwn l steps

-- Nor does any new job take the name of another.
def Lawful (l : ThreadLoans) (steps : List Step) : Prop :=
  Follows (fun l step => l.ReturnsOwn step ∧ l.NamesAfresh step) l steps

instance decidableReturnsOwn (l : ThreadLoans) : (step : Step) → Decidable (l.ReturnsOwn step)
  | .whole move => inferInstanceAs (Decidable (l.loans.ReturnsOwn move))
  | .begin .. | .settle .. | .goOn .. | .look .. | .proceed .. => .isTrue trivial

instance decidableNamesAfresh (l : ThreadLoans) : (step : Step) → Decidable (l.NamesAfresh step)
  | .whole move => inferInstanceAs (Decidable (l.threads.state.NamesAfresh move))
  | .begin .. | .settle .. | .goOn .. | .look .. | .proceed .. => .isTrue trivial

instance decidableFollows (allowed : ThreadLoans → Step → Prop)
    [∀ l step, Decidable (allowed l step)] :
    (l : ThreadLoans) → (steps : List Step) → Decidable (Follows allowed l steps)
  | _, [] => .isTrue trivial
  | l, step :: steps =>
    have := decidableFollows allowed (l.make step) steps
    inferInstanceAs (Decidable (allowed l step ∧ Follows allowed (l.make step) steps))

instance (l : ThreadLoans) (steps : List Step) : Decidable (l.Honest steps) :=
  decidableFollows ReturnsOwn l steps

instance (l : ThreadLoans) (steps : List Step) : Decidable (l.Lawful steps) :=
  decidableFollows _ l steps

theorem run_threads (l : ThreadLoans) (steps : List Step) :
    (l.run steps).threads = l.threads.run steps := by
  induction steps generalizing l with
  | nil => rfl
  | cons step steps ih => exact ih (l.make step)

end ThreadLoans

theorem ThreadLoans.make_lent {l : ThreadLoans} {step : Step} (h : step.isMove = false) :
    (l.make step).lent = l.lent := by
  cases step with
  | whole move => cases move <;> first | exact List.append_nil _ | cases h
  | _ => rfl

namespace Threads

variable {t : Threads} {step : Step} {tail : Tail} {slots : Nat} {l : ThreadLoans}

-- How an engine stands whatever has been done on its threads.
structure Sound (slots : Nat) (lent : List JobId) (t : Threads) : Prop where
  known : t.state.Known
  distinct : t.state.ledger.Distinct
  shared : (t.state.account lent).Shared slots t.tails

theorem Sound.moved (h : l.threads.Sound slots l.lent) {move : Move} (hwhole : move.isWhole = true)
    (hreturns : l.loans.ReturnsOwn move) :
    (l.threads.withState (l.threads.state.apply move)).Sound slots (l.loans.make move).lent := by
  have hheld : ∀ job ∈ l.lent, job ∈ l.threads.state.line.gate.holders := fun job hjob =>
    h.shared.holders.mem_iff.mpr (List.mem_append_right _ hjob)
  obtain ⟨hstep, hknown⟩ :=
    Account.make_step_of_whole (l := l.loans) hwhole h.known h.distinct hheld hreturns
  obtain ⟨more, htasks, -⟩ := (l.threads.state.keepsAttempts_apply hwhole).tasks
  exact ⟨hknown, (l.threads.state.reaches_apply move).distinct h.distinct,
    h.shared.step hstep ⟨more, htasks.symm⟩⟩

theorem Sound.freed {lent : List JobId} (h : t.Sound slots lent) (htail : tail ∈ t.tails)
    (hslot : tail.rest.hasSlot = true) {rest : Rest} (hrest : rest.hasSlot = false) :
    ({ t with
      state := t.state.freeSlot tail.job
      tails := Tail.advanced t.tails tail.ticket rest } : Threads).Sound slots lent := by
  obtain ⟨gate, hgate, hshared⟩ := h.shared.frees htail hslot hrest
  have hline : t.state.line.release? tail.job = some _ :=
    Line.release?_eq_some_iff.mpr ⟨gate, hgate, rfl⟩
  simp only [State.freeSlot, hline]
  refine ⟨h.known.release hline rfl rfl, h.distinct, hshared.of_same ?_ rfl le_rfl rfl⟩
  exact Option.some_inj.mp ((Line.release?_gate hline).symm.trans hgate)

theorem Sound.apply (h : l.threads.Sound slots l.lent) (hreturns : l.ReturnsOwn step) :
    (l.make step).threads.Sound slots (l.make step).lent := by
  have hturns := l.threads.turns_apply step
  have hdistinct := (l.threads.reaches_apply step).distinct h.distinct
  have hthreads : (l.make step).threads = l.threads.apply step := rfl
  rw [hthreads]
  generalize l.threads.apply step = next at hturns hdistinct
  cases hturns with
  | idle hstep =>
    rw [ThreadLoans.make_lent hstep]
    exact h
  | moved hwhole => exact h.moved hwhole hreturns
  | begun htask hstage hspared hok =>
    exact ⟨h.known.same rfl rfl, hdistinct, (h.shared.staged _ _).of_same rfl rfl le_rfl rfl⟩
  | skipped htask hstage hspared herror =>
    exact ⟨h.known.same rfl rfl, hdistinct, h.shared.ends htask hspared 0 _⟩
  | settled htask hstage hspared hsettle =>
    exact ⟨h.known.same rfl rfl, hdistinct,
      (h.shared.ends htask hspared _ _).of_same rfl rfl le_rfl rfl⟩
  | freed htail hrest => exact h.freed htail (hrest ▸ rfl) rfl
  | followed htail hrest hfollow =>
    exact ⟨h.known.same rfl rfl, hdistinct,
      (h.shared.goesOn htail (hrest ▸ rfl)).of_same rfl rfl le_rfl rfl⟩
  | counted htail hrest =>
    exact ⟨h.known.same rfl rfl, hdistinct, h.shared.goesOn htail (hrest ▸ rfl)⟩
  | reported htail hrest =>
    exact ⟨h.known.same rfl rfl, hdistinct, h.shared.closes htail (hrest ▸ rfl)⟩
  | asked requests hstep =>
    rw [ThreadLoans.make_lent hstep]
    exact ⟨h.known.same rfl rfl, hdistinct, h.shared⟩
  | filed requests hok =>
    exact ⟨h.known.same rfl rfl, hdistinct, h.shared.of_same rfl rfl le_rfl rfl⟩
  | queued requests hrequest hfiling hok =>
    exact ⟨h.known.same rfl rfl, hdistinct, h.shared.of_same rfl rfl le_rfl rfl⟩
  | forgotten requests hrequest hfiling hforget =>
    exact ⟨h.known.same rfl rfl, hdistinct, h.shared.of_same rfl rfl le_rfl rfl⟩

theorem Sound.run {steps : List Step} (h : l.threads.Sound slots l.lent)
    (hhonest : l.Honest steps) :
    (l.run steps).threads.Sound slots (l.run steps).lent := by
  induction steps generalizing l with
  | nil => exact h
  | cons step steps ih => exact ih (h.apply hhonest.1) hhonest.2

theorem sound_initial (b : Blueprint) (around : Surroundings) :
    (ofState (b.initial around)).Sound (b.slots around) [] := by
  have hbalanced := Account.balanced_initial b around
  exact
    { known := Account.known_initial b around
      distinct := hbalanced.distinct
      shared :=
        { gate := hbalanced.gate
          capacity := hbalanced.capacity
          tickets := hbalanced.tickets
          issued := hbalanced.issued
          single := List.nodup_nil
          owned := by simp [ofState]
          holders := hbalanced.holders } }

end Threads

namespace ThreadLoans

variable {l : ThreadLoans} {steps first second : List Step} {move : Move}

theorem follows_append {allowed : ThreadLoans → Step → Prop} :
    Follows allowed l (first ++ second) ↔
      Follows allowed l first ∧ Follows allowed (l.run first) second := by
  induction first generalizing l with
  | nil => simp [Follows, run]
  | cons step steps ih =>
    simp only [List.cons_append, Follows, ih, and_assoc]
    rfl

theorem honest_of_steps (l : ThreadLoans) (steps : List Step)
    (h : ∀ step ∈ steps, step.isMove = false) :
    l.Honest steps ∧ (l.run steps).lent = l.lent := by
  induction steps generalizing l with
  | nil => exact ⟨trivial, rfl⟩
  | cons step steps ih =>
    have hstep := h step (List.mem_cons_self ..)
    obtain ⟨hhonest, hlent⟩ := ih (l.make step) fun other hother =>
      h other (List.mem_cons_of_mem _ hother)
    refine ⟨⟨?_, hhonest⟩, hlent.trans (make_lent hstep)⟩
    cases step with
    | whole move => cases move <;> trivial
    | _ => trivial

-- On one thread a move takes and returns what it does as a whole.
theorem honest_move {loans : Loans} (h : loans.ReturnsOwn move) :
    (⟨Threads.ofState loans.state, loans.lent⟩ : ThreadLoans).Honest move.steps ∧
      (⟨Threads.ofState loans.state, loans.lent⟩ : ThreadLoans).run move.steps =
        ⟨Threads.ofState (loans.make move).state, (loans.make move).lent⟩ := by
  have hthreads := (run_threads ⟨Threads.ofState loans.state, loans.lent⟩ move.steps).trans
    (Threads.run_steps loans.state move)
  suffices hsteps : (⟨Threads.ofState loans.state, loans.lent⟩ : ThreadLoans).Honest move.steps ∧
      ((⟨Threads.ofState loans.state, loans.lent⟩ : ThreadLoans).run move.steps).lent =
        (loans.make move).lent from
    ⟨hsteps.1, congrArg₂ ThreadLoans.mk hthreads hsteps.2⟩
  have hnone : loans.lent = loans.lent ++ [] := (List.append_nil _).symm
  cases move with
  | submit id params priority maxRetries =>
    obtain ⟨hhonest, hlent⟩ := honest_of_steps
      (make ⟨Threads.ofState loans.state, loans.lent⟩ (.whole (.create id params maxRetries)))
      (.look 0 id priority true :: List.replicate 3 (.proceed 0)) (by simp [Step.isMove])
    exact ⟨⟨trivial, hhonest⟩, hlent⟩
  | enqueue id priority =>
    obtain ⟨hhonest, hlent⟩ := honest_of_steps ⟨Threads.ofState loans.state, loans.lent⟩
      (Move.steps (.enqueue id priority)) (by simp [Move.steps, Step.isMove])
    exact ⟨hhonest, hlent.trans hnone⟩
  | beginTask ticket =>
    obtain ⟨hhonest, hlent⟩ := honest_of_steps ⟨Threads.ofState loans.state, loans.lent⟩
      (Move.steps (.beginTask ticket)) (by simp [Move.steps, Step.isMove])
    exact ⟨hhonest, hlent.trans hnone⟩
  | endTask ticket result =>
    obtain ⟨hhonest, hlent⟩ := honest_of_steps ⟨Threads.ofState loans.state, loans.lent⟩
      (Move.steps (.endTask ticket result)) (by simp [Move.steps, Step.isMove])
    exact ⟨hhonest, hlent.trans hnone⟩
  | _ => exact ⟨⟨h, trivial⟩, rfl⟩

-- What is done on one thread is one of the things that threads can do.
theorem honest_onOneThread {loans : Loans} {moves : List Move} (h : loans.Lawful moves) :
    (⟨Threads.ofState loans.state, loans.lent⟩ : ThreadLoans).Honest
      (moves.flatMap Move.steps) := by
  induction moves generalizing loans with
  | nil => exact trivial
  | cons move moves ih =>
    obtain ⟨hhonest, hrun⟩ := honest_move h.1.1
    rw [List.flatMap_cons, Honest, follows_append, hrun]
    exact ⟨hhonest, ih h.2⟩

end ThreadLoans

end Foreman.Engine
