import Foreman.Proofs.Engine.Shape

namespace Foreman.Engine

-- Whether a move is one of callers, or of the clock they go by.
def Move.attends : Move → Bool
  | .arrive .. | .abandon _ | .firstLook _ | .nextLook | .collect _ | .pass _ => true
  | _ => false

namespace State

-- The callers are left alone, and so are the clock and the rules they go by. Those in front of the
-- gate may be woken, but none of them comes or goes.
structure Aside (s s' : State) : Prop where
  config : s'.config = s.config
  now : s'.now = s.now
  callers : s'.callers = s.callers
  issued : s.issued ≤ s'.issued
  calls : s'.line.calls.Perm s.line.calls
  waiting : s'.line.waiting ⊆ s.line.waiting

variable {s s' s'' : State} {move : Move}

theorem Aside.of_line (hconfig : s'.config = s.config) (hnow : s'.now = s.now)
    (hcallers : s'.callers = s.callers) (hissued : s.issued ≤ s'.issued)
    (hline : s'.line = s.line) : s.Aside s' := by
  refine ⟨hconfig, hnow, hcallers, hissued, ?_, ?_⟩
  · rw [hline]
  · rw [hline]
    exact List.Subset.refl _

theorem Aside.refl (s : State) : s.Aside s := .of_line rfl rfl rfl le_rfl rfl

theorem Aside.trans (h : s.Aside s') (h' : s'.Aside s'') : s.Aside s'' where
  config := h'.config.trans h.config
  now := h'.now.trans h.now
  callers := h'.callers.trans h.callers
  issued := h.issued.trans h'.issued
  calls := h'.calls.trans h.calls
  waiting := fun _ hcall => h.waiting (h'.waiting hcall)

theorem aside_release {line : Line} {job : JobId} (h : s.line.release? job = some line) :
    s.Aside { s with line := line } := by
  obtain ⟨g, -, rfl⟩ := Line.release?_eq_some_iff.mp h
  refine ⟨rfl, rfl, rfl, le_rfl, Line.wakeOne_calls_perm _, fun call hcall => ?_⟩
  exact Line.wakeOne_waiting (l := { s.line with gate := g }) hcall

theorem aside_freeSlot (s : State) (job : JobId) : s.Aside (s.freeSlot job) := by
  unfold freeSlot
  split
  · rename_i line hline
    exact aside_release hline
  · exact .refl s

theorem aside_settleResult (s : State) (job : Job) (requeues : Bool)
    (result : Except Failure Artifact) : s.Aside (s.settleResult job requeues result).2 := by
  obtain ⟨ledger, registry, heq⟩ := s.exists_settleResult_eq job requeues result
  rw [heq]
  exact .of_line rfl rfl rfl le_rfl rfl

theorem aside_followUp (s : State) (job : JobId) (sequel : Sequel) :
    s.Aside (s.followUp job sequel).2 := by
  obtain ⟨ledger, queue, heq⟩ := s.exists_followUp_eq job sequel
  rw [heq]
  exact .of_line rfl rfl rfl le_rfl rfl

theorem aside_endTask (s : State) (task : Task) (job : Job) (result : Except Failure Artifact) :
    s.Aside (s.endTask task job result) := by
  have hsettled := s.aside_settleResult job task.requeues result
  rcases hsettle : s.settleResult job task.requeues result with ⟨sequel, settled⟩
  rw [hsettle] at hsettled
  have hfollowed := ((settled.aside_freeSlot task.job).trans
    ((settled.freeSlot task.job).aside_followUp task.job sequel))
  simp only [endTask, hsettle]
  exact (hsettled.trans hfollowed).trans (.of_line rfl rfl rfl le_rfl rfl)

theorem aside_beginTask (s : State) (task : Task) : s.Aside (s.beginTask task) := by
  simp only [beginTask]
  split
  · exact .of_line rfl rfl rfl le_rfl rfl
  · have hcounted : s.Aside { s with tally := s.tally.begin } := .of_line rfl rfl rfl le_rfl rfl
    exact (hcounted.trans (aside_freeSlot _ task.job)).trans (.of_line rfl rfl rfl le_rfl rfl)

theorem aside_report (s : State) (job : JobId) (percent : Nat) :
    s.Aside (s.report job percent) := by
  unfold report
  split
  · exact .of_line rfl rfl rfl le_rfl rfl
  · exact .refl s

theorem aside_enqueue (s : State) (id : JobId) (priority : Int) :
    s.Aside (s.enqueue id priority).2 := by
  obtain ⟨fault, heq, -⟩ | ⟨job, ledger, -, -, hcases⟩ := enqueue_cases s id priority
  · rw [heq]
    exact .refl s
  · obtain ⟨fault, heq, -⟩ | ⟨position, heq, -⟩ | ⟨position, heq, -⟩ := hcases
    · rw [heq]
      exact .of_line rfl rfl rfl le_rfl rfl
    · rw [heq]
      exact .of_line rfl rfl rfl le_rfl rfl
    · rw [heq]
      exact .of_line rfl rfl rfl le_rfl rfl

theorem aside_submit (s : State) (id : JobId) (params : Params) (priority : Int)
    (maxRetries : Option Nat) : s.Aside (s.submit id params priority maxRetries).2 := by
  have hadded : s.Aside (s.addJob id params maxRetries).2 := .of_line rfl rfl rfl le_rfl rfl
  have hasked := hadded.trans ((s.addJob id params maxRetries).2.aside_enqueue id priority)
  rw [submit_eq]
  rcases henqueue : (s.addJob id params maxRetries).2.enqueue id priority with ⟨_ | position, next⟩
  · rw [henqueue] at hasked
    exact hasked.trans (.of_line rfl rfl rfl le_rfl rfl)
  · rw [henqueue] at hasked
    exact hasked

theorem aside_withdrawJob (s : State) (id : JobId) : s.Aside (s.withdrawJob id).2 := by
  unfold withdrawJob
  split
  · exact .refl s
  · exact .of_line rfl rfl rfl le_rfl rfl

theorem aside_takeJob (s : State) : s.Aside s.takeJob.2 := by
  unfold takeJob
  obtain hnone | ⟨job, queue, gate, hsome, -, -, -⟩ := takeNext_cases s
  · rw [hnone]
    exact .refl s
  · rw [hsome]
    exact ⟨rfl, rfl, rfl, le_rfl, .refl _, List.Subset.refl _⟩

theorem aside_returnSlot (s : State) (id : JobId) : s.Aside (s.returnSlot id).2 := by
  unfold returnSlot
  split
  · exact .refl s
  · rename_i line hline
    exact aside_release hline

theorem aside_protect (s : State) (id : JobId) (path : String) :
    s.Aside (s.protect id path).2 := by
  unfold protect
  split
  · exact .of_line rfl rfl rfl le_rfl rfl
  · exact .refl s

theorem aside_sweep (s : State) (dryRun : Bool) : s.Aside (s.apply (.sweep dryRun)) := by
  obtain heq | ⟨-, files, heq⟩ := s.apply_sweep_cases dryRun
  · rw [heq]
    exact .refl s
  · rw [heq]
    exact .of_line rfl rfl rfl le_rfl rfl

theorem aside_maintain (s : State) (upkeep : Upkeep) : s.Aside (s.maintain upkeep) := by
  obtain ⟨limiter, files, next, heq⟩ := exists_maintain_eq s upkeep
  rw [heq]
  exact .of_line rfl rfl rfl le_rfl rfl

theorem aside_burstWithin (fuel : Nat) (s : State) : s.Aside (burstWithin fuel s) := by
  induction fuel generalizing s with
  | zero => exact .refl s
  | succ fuel ih =>
    unfold burstWithin
    obtain hnone | ⟨job, queue, gate, hsome, -, -, -⟩ := takeNext_cases s
    · rw [hnone]
      exact .refl s
    · rw [hsome]
      have htaken : s.Aside (({ s with
          queue := queue, line := { s.line with gate := gate } } : State).spawn job true) :=
        ⟨rfl, rfl, rfl, Nat.le_succ _, .refl _, List.Subset.refl _⟩
      exact htaken.trans (ih _)

theorem aside_pollQueue (s : State) : s.Aside s.pollQueue :=
  (aside_burstWithin s.queue.length s).trans (.of_line rfl rfl rfl le_rfl rfl)

theorem aside_apply (s : State) (h : move.attends = false) : s.Aside (s.apply move) := by
  cases move with
  | create id params maxRetries => exact .of_line rfl rfl rfl le_rfl rfl
  | submit id params priority maxRetries => exact s.aside_submit id params priority maxRetries
  | enqueue id priority => exact s.aside_enqueue id priority
  | withdrawJob id => exact s.aside_withdrawJob id
  | takeJob => exact s.aside_takeJob
  | returnSlot id => exact s.aside_returnSlot id
  | askRate caller category => exact .of_line rfl rfl rfl le_rfl rfl
  | protect id path => exact s.aside_protect id path
  | unprotect id => exact .of_line rfl rfl rfl le_rfl rfl
  | evict => exact .of_line rfl rfl rfl le_rfl rfl
  | sweep dryRun => exact s.aside_sweep dryRun
  | start => exact .of_line rfl rfl rfl le_rfl rfl
  | stop => exact .of_line rfl rfl rfl le_rfl rfl
  | beginTask ticket =>
    simp only [apply, withTask]
    split
    · split
      · exact s.aside_beginTask _
      · exact .refl s
    · exact .refl s
  | report ticket percent =>
    simp only [apply, withTask]
    split
    · split
      · exact .refl s
      · exact s.aside_report _ percent
    · exact .refl s
  | endTask ticket result =>
    simp only [apply, withTask]
    split
    · split
      · exact .refl s
      · exact s.aside_endTask _ _ result
    · exact .refl s
  | poll =>
    simp only [apply]
    split
    · split
      · exact s.aside_pollQueue
      · exact .refl s
    · exact .refl s
  | maintain =>
    simp only [apply]
    split
    · split
      · exact s.aside_maintain _
      · exact .refl s
    · exact .refl s
  | _ => cases h

end State

end Foreman.Engine
