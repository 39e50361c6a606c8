import Foreman.Proofs.Engine.Deeds
import Foreman.Proofs.Engine.Sharing
import Foreman.Proofs.Engine.Threads

namespace Foreman.Engine

-- Whether a step is a move of the engine.
def Step.isMove : Step → Bool
  | whole move => move.isWhole
  | begin .. | settle .. | goOn .. | look .. | proceed .. => false

namespace Threads

open State (Sequel)

-- Everything that a step can make of an engine.
inductive Turns (t : Threads) : Step → Threads → Prop
  | idle {step} (hstep : step.isMove = false) : Turns t step t
  | moved {move} (hwhole : move.isWhole = true) :
      Turns t (.whole move) (t.withState (t.state.apply move))
  | begun {task job ledger} (htask : task ∈ t.state.tasks) (hstage : task.stage = .starting)
      (hspared : Tail.spares t.tails task.ticket = true)
      (hok : t.state.ledger.startAttempt task.job t.state.now = .ok (job, ledger)) :
      Turns t (.begin task.ticket) (t.withState { t.state with
        ledger := ledger
        tasks := Account.staged t.state.tasks task.ticket (.running job)
        tally := t.state.tally.begin })
  | skipped {task fault} (htask : task ∈ t.state.tasks) (hstage : task.stage = .starting)
      (hspared : Tail.spares t.tails task.ticket = true)
      (herror : t.state.ledger.startAttempt task.job t.state.now = .error fault) :
      Turns t (.begin task.ticket) { t with
        state := { t.state with tally := t.state.tally.begin }
        tails := t.tails ++ [⟨task.ticket, task.job, 0, .slot (.done .skipped)⟩] }
  | settled {task job result sequel ledger registry} (htask : task ∈ t.state.tasks)
      (hstage : task.stage = .running job) (hspared : Tail.spares t.tails task.ticket = true)
      (hsettle : t.state.settleResult job task.requeues result =
        (sequel, { t.state with ledger := ledger, registry := registry })) :
      Turns t (.settle task.ticket result) { t with
        state := { t.state with ledger := ledger, registry := registry }
        tails := t.tails ++ [⟨task.ticket, task.job, job.attempt, .slot sequel⟩] }
  | freed {tail sequel} (htail : tail ∈ t.tails) (hrest : tail.rest = .slot sequel) :
      Turns t (.goOn tail.ticket) { t with
        state := t.state.freeSlot tail.job
        tails := Tail.advanced t.tails tail.ticket (.sequel sequel) }
  | followed {tail sequel outcome ledger queue} (htail : tail ∈ t.tails)
      (hrest : tail.rest = .sequel sequel) (hfollow : t.state.followUp tail.job sequel =
        (outcome, { t.state with ledger := ledger, queue := queue })) :
      Turns t (.goOn tail.ticket) { t with
        state := { t.state with ledger := ledger, queue := queue }
        tails := Tail.advanced t.tails tail.ticket (.counters outcome) }
  | counted {tail outcome} (htail : tail ∈ t.tails) (hrest : tail.rest = .counters outcome) :
      Turns t (.goOn tail.ticket) { t with
        state := { t.state with tally := t.state.tally.finish outcome }
        tails := Tail.advanced t.tails tail.ticket (.audit outcome) }
  | reported {tail outcome} (htail : tail ∈ t.tails) (hrest : tail.rest = .audit outcome) :
      Turns t (.goOn tail.ticket) { t with
        state := { t.state with
          audit := t.state.audit.push ⟨tail.job, tail.attempt, outcome, Span.zero, t.state.now⟩
          tasks := Account.without t.state.tasks tail.ticket }
        tails := Tail.without t.tails tail.ticket }
  | asked {step} (requests : List Request) (hstep : step.isMove = false) :
      Turns t step { t with requests := requests }
  | filed {request : Request} {job ledger} (requests : List Request)
      (hok : t.state.ledger.setPriority request.job request.priority = .ok (job, ledger)) :
      Turns t (.proceed request.tag) { t with
        state := { t.state with ledger := ledger }
        requests := requests }
  | queued {request : Request} {position queue} (requests : List Request)
      (hrequest : t.request? request.tag = some request)
      (hfiling : request.filing = .filed)
      (hok : t.state.queue.enqueue t.state.gate request.job request.priority t.state.now =
        .ok (position, queue)) :
      Turns t (.proceed request.tag) { t with
        state := { t.state with queue := queue }
        requests := requests }
  | forgotten {request : Request} {ledger} (requests : List Request)
      (hrequest : t.request? request.tag = some request)
      (hfiling : request.filing = .refused)
      (hforget : t.state.forget request.job = { t.state with ledger := ledger }) :
      Turns t (.proceed request.tag) { t with
        state := { t.state with ledger := ledger }
        requests := requests }

variable {t t' : Threads} {step : Step} {ticket : Nat} {task : Task} {tail : Tail}

theorem tail?_mem (h : t.tail? ticket = some tail) : tail ∈ t.tails ∧ tail.ticket = ticket :=
  ⟨List.mem_of_find?_eq_some h, by simpa using List.find?_some h⟩

theorem task?_cases (h : t.task? ticket = some task) :
    task ∈ t.state.tasks ∧ task.ticket = ticket ∧ Tail.spares t.tails ticket = true := by
  unfold task? at h
  split at h
  · cases h
  · rename_i hnone
    obtain ⟨hmem, hticket⟩ := State.task?_mem h
    refine ⟨hmem, hticket, Tail.spares_iff.mpr fun tail htail hsame => hnone ?_⟩
    exact List.find?_isSome.mpr ⟨tail, htail, by simpa using hsame⟩

theorem turns_begin (t : Threads) (ticket : Nat) :
    t.Turns (.begin ticket) (t.apply (.begin ticket)) := by
  simp only [apply]
  cases htask : t.task? ticket with
  | none => exact .idle rfl
  | some task =>
    obtain ⟨hmem, rfl, hspared⟩ := task?_cases htask
    simp only
    cases hstage : task.stage with
    | running job => exact .idle rfl
    | starting =>
      simp only [begin]
      split
      · rename_i hok
        exact .begun hmem hstage hspared hok
      · rename_i herror
        exact .skipped hmem hstage hspared herror

theorem turns_settle (t : Threads) (ticket : Nat) (result : Except Failure Artifact) :
    t.Turns (.settle ticket result) (t.apply (.settle ticket result)) := by
  simp only [apply]
  cases htask : t.task? ticket with
  | none => exact .idle rfl
  | some task =>
    obtain ⟨hmem, rfl, hspared⟩ := task?_cases htask
    simp only
    cases hstage : task.stage with
    | starting => exact .idle rfl
    | running job =>
      obtain ⟨ledger, registry, heq⟩ := t.state.exists_settleResult_eq job task.requeues result
      rcases hsettle : t.state.settleResult job task.requeues result with ⟨sequel, settled⟩
      rw [hsettle] at heq
      obtain rfl : settled = { t.state with ledger := ledger, registry := registry } := heq
      simp only [settle, hsettle]
      exact .settled hmem hstage hspared hsettle

theorem turns_goOn (t : Threads) (ticket : Nat) :
    t.Turns (.goOn ticket) (t.apply (.goOn ticket)) := by
  simp only [apply]
  cases htail : t.tail? ticket with
  | none => exact .idle rfl
  | some tail =>
    obtain ⟨hmem, rfl⟩ := tail?_mem htail
    simp only [goOn]
    cases hrest : tail.rest with
    | slot sequel => exact .freed hmem hrest
    | sequel sequel =>
      obtain ⟨ledger, queue, heq⟩ := t.state.exists_followUp_eq tail.job sequel
      rcases hfollow : t.state.followUp tail.job sequel with ⟨outcome, followed⟩
      rw [hfollow] at heq
      obtain rfl : followed = { t.state with ledger := ledger, queue := queue } := heq
      simp only [hfollow]
      exact .followed hmem hrest hfollow
    | counters outcome => exact .counted hmem hrest
    | audit outcome => exact .reported hmem hrest

theorem turns_look (hstep : step.isMove = false) (tag : Nat) (id : JobId) (priority : Int)
    (isNew : Bool) : t.Turns step (t.look tag id priority isNew) := by
  unfold look
  split
  · exact .idle hstep
  · split
    · exact .asked _ hstep
    · split
      · exact .asked _ hstep
      · exact .idle hstep

theorem turns_refuse (hstep : step.isMove = false) (request : Request) :
    t.Turns step (t.refuse request) := by
  unfold refuse
  split
  · exact .asked _ hstep
  · exact .asked _ hstep

theorem turns_proceed {request : Request} (hrequest : t.request? request.tag = some request) :
    t.Turns (.proceed request.tag) (t.proceed request) := by
  unfold proceed
  split
  · split
    · exact turns_refuse rfl request
    · rename_i hok
      exact .filed _ hok
  · rename_i hfiling
    split
    · exact turns_refuse rfl request
    · rename_i hok
      exact .queued _ hrequest hfiling hok
  · rename_i hfiling
    exact .forgotten _ hrequest hfiling rfl

theorem turns_apply (t : Threads) (step : Step) : t.Turns step (t.apply step) := by
  cases step with
  | whole move =>
    by_cases hwhole : move.isWhole = true
    · have happly : t.apply (.whole move) = t.withState (t.state.apply move) := by
        cases move <;> first | rfl | cases hwhole
      exact happly ▸ .moved hwhole
    · have happly : t.apply (.whole move) = t := by
        cases move <;> first | rfl | exact absurd rfl hwhole
      rw [happly]
      exact .idle (Bool.eq_false_iff.mpr hwhole)
  | begin ticket => exact t.turns_begin ticket
  | settle ticket result => exact t.turns_settle ticket result
  | goOn ticket => exact t.turns_goOn ticket
  | look tag id priority isNew =>
    simp only [apply]
    split
    · exact .idle rfl
    · exact turns_look rfl tag id priority isNew
  | proceed tag =>
    simp only [apply]
    split
    · rename_i request hrequest
      obtain rfl : request.tag = tag := by simpa using List.find?_some hrequest
      exact turns_proceed hrequest
    · exact .idle rfl

theorem reaches_apply (t : Threads) (step : Step) :
    t.state.ledger.Reaches (t.apply step).state.ledger := by
  have hturns := t.turns_apply step
  generalize t.apply step = next at hturns
  cases hturns with
  | @moved move hwhole => exact t.state.reaches_apply move
  | @begun task _ _ _ _ _ hok => exact .of_ok t.state.now (.startAttempt task.job) rfl hok
  | @settled task job result _ _ _ _ _ _ hsettle =>
    have hreaches := t.state.reaches_settleResult job task.requeues result
    rw [hsettle] at hreaches
    exact hreaches
  | @freed tail _ _ _ => exact .of_eq (t.state.keepsRecords_freeSlot tail.job).ledger
  | @followed tail sequel _ _ _ _ _ hfollow =>
    have hreaches := t.state.reaches_followUp tail.job sequel
    rw [hfollow] at hreaches
    exact hreaches
  | @filed request _ _ _ hok =>
    exact .of_ok t.state.now (.setPriority request.job request.priority) rfl hok
  | @forgotten request _ _ _ _ hforget =>
    have hreaches := t.state.reaches_forget request.job
    rw [hforget] at hreaches
    exact hreaches
  | _ => exact .refl _

end Threads

end Foreman.Engine
