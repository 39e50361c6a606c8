import Foreman.Engine.Threads
import Foreman.Proofs.Engine.Balance

namespace Foreman.Engine

-- Whether an attempt still has its slot when this is left to be done about it.
def Rest.hasSlot : Rest → Bool
  | slot _ => true
  | sequel _ | counters _ | audit _ => false

-- How an attempt went that is counted and is not reported yet.
def Rest.counted? : Rest → Option Outcome
  | audit outcome => some outcome
  | slot _ | sequel _ | counters _ => none

namespace Tail

variable {tails : List Tail} {tail : Tail} {rest : Rest} {ticket other : Nat}

-- Whether an attempt has its slot, as far as those that are over are concerned.
def holds (tails : List Tail) (ticket : Nat) : Bool :=
  tails.all fun tail => tail.ticket != ticket || tail.rest.hasSlot

-- Whether an attempt is not over.
def spares (tails : List Tail) (ticket : Nat) : Bool :=
  tails.all fun tail => tail.ticket != ticket

def advanced (tails : List Tail) (ticket : Nat) (rest : Rest) : List Tail :=
  tails.map fun tail => if tail.ticket = ticket then { tail with rest := rest } else tail

def without (tails : List Tail) (ticket : Nat) : List Tail :=
  tails.filter (fun tail => tail.ticket != ticket)

-- How many of those that are over are counted like this, or are not counted.
def count (tails : List Tail) (p : Option Outcome → Bool) : Nat :=
  tails.countP fun tail => p tail.rest.counted?

theorem holds_iff : holds tails ticket = true ↔
    ∀ tail ∈ tails, tail.ticket = ticket → tail.rest.hasSlot = true := by
  simp only [holds, List.all_eq_true, Bool.or_eq_true, bne_iff_ne, ne_eq, or_iff_not_imp_left,
    not_not]

theorem spares_iff : spares tails ticket = true ↔ ∀ tail ∈ tails, tail.ticket ≠ ticket := by
  simp [spares]

theorem holds_of_spares (h : spares tails ticket = true) : holds tails ticket = true :=
  holds_iff.mpr fun tail htail hticket => absurd hticket (spares_iff.mp h tail htail)

theorem holds_eq (hsingle : (tails.map Tail.ticket).Nodup) (htail : tail ∈ tails) :
    holds tails tail.ticket = tail.rest.hasSlot := by
  rw [Bool.eq_iff_iff, holds_iff]
  refine ⟨fun h => h tail htail rfl, fun hslot other hother hticket => ?_⟩
  rw [List.inj_on_of_nodup_map hsingle hother htail hticket]
  exact hslot

theorem spares_eq_false (htail : tail ∈ tails) : spares tails tail.ticket = false := by
  rw [Bool.eq_false_iff, ne_eq, spares_iff]
  exact fun h => h tail htail rfl

@[simp] theorem tickets_advanced (tails : List Tail) (ticket : Nat) (rest : Rest) :
    (advanced tails ticket rest).map Tail.ticket = tails.map Tail.ticket := by
  simp only [advanced, List.map_map]
  apply List.map_congr_left
  intro tail _
  simp only [Function.comp_apply]
  split <;> rfl

theorem mem_advanced {rest : Rest} : tail ∈ advanced tails ticket rest ↔
    (tail ∈ tails ∧ tail.ticket ≠ ticket) ∨
      ∃ old ∈ tails, old.ticket = ticket ∧ tail = { old with rest := rest } := by
  simp only [advanced, List.mem_map]
  constructor
  · rintro ⟨old, hold, rfl⟩
    by_cases hticket : old.ticket = ticket
    · exact .inr ⟨old, hold, hticket, by rw [if_pos hticket]⟩
    · rw [if_neg hticket]
      exact .inl ⟨hold, hticket⟩
  · rintro (⟨htail, hticket⟩ | ⟨old, hold, hticket, rfl⟩)
    · exact ⟨tail, htail, if_neg hticket⟩
    · exact ⟨old, hold, if_pos hticket⟩

theorem holds_advanced_of_ne (hne : other ≠ ticket) (rest : Rest) :
    holds (advanced tails ticket rest) other = holds tails other := by
  rw [Bool.eq_iff_iff, holds_iff, holds_iff]
  constructor
  · intro h tail htail hticket
    exact h tail (mem_advanced.mpr (.inl ⟨htail, hticket ▸ hne⟩)) hticket
  · intro h tail htail hticket
    obtain ⟨htail, -⟩ | ⟨old, -, hold, rfl⟩ := mem_advanced.mp htail
    · exact h tail htail hticket
    · exact absurd (hticket.symm.trans hold) hne

theorem holds_advanced_self (hsingle : (tails.map Tail.ticket).Nodup) (htail : tail ∈ tails)
    (rest : Rest) : holds (advanced tails tail.ticket rest) tail.ticket = rest.hasSlot := by
  have hsingle' : ((advanced tails tail.ticket rest).map Tail.ticket).Nodup := by
    rw [tickets_advanced]
    exact hsingle
  exact holds_eq hsingle' (mem_advanced.mpr (.inr ⟨tail, htail, rfl, rfl⟩))

theorem spares_advanced (tails : List Tail) (ticket other : Nat) (rest : Rest) :
    spares (advanced tails ticket rest) other = spares tails other := by
  have hmap : ∀ tails : List Tail,
      spares tails other = (tails.map Tail.ticket).all (fun ticket => ticket != other) := by
    intro tails
    rw [List.all_map]
    rfl
  rw [hmap, hmap, tickets_advanced]

theorem mem_without : tail ∈ without tails ticket ↔ tail ∈ tails ∧ tail.ticket ≠ ticket := by
  simp [without]

theorem holds_without_of_ne (hne : other ≠ ticket) :
    holds (without tails ticket) other = holds tails other := by
  rw [Bool.eq_iff_iff, holds_iff, holds_iff]
  constructor
  · intro h tail htail hticket
    exact h tail (mem_without.mpr ⟨htail, hticket ▸ hne⟩) hticket
  · exact fun h tail htail => h tail (mem_without.mp htail).1

theorem spares_without_of_ne (hne : other ≠ ticket) :
    spares (without tails ticket) other = spares tails other := by
  rw [Bool.eq_iff_iff, spares_iff, spares_iff]
  constructor
  · intro h tail htail hticket
    exact h tail (mem_without.mpr ⟨htail, hticket ▸ hne⟩) hticket
  · exact fun h tail htail => h tail (mem_without.mp htail).1

theorem perm_without (hsingle : (tails.map Tail.ticket).Nodup) (htail : tail ∈ tails) :
    tails.Perm (tail :: without tails tail.ticket) :=
  Keyed.perm_cons_filter hsingle htail

-- When one of them goes on, that one is another, and the others are the same.
theorem perm_advanced (hsingle : (tails.map Tail.ticket).Nodup) (htail : tail ∈ tails)
    (rest : Rest) : (advanced tails tail.ticket rest).Perm
      ({ tail with rest := rest } :: without tails tail.ticket) := by
  have hmoved := (perm_without hsingle htail).map fun other =>
    if other.ticket = tail.ticket then { other with rest := rest } else other
  rw [List.map_cons, if_pos rfl] at hmoved
  have hothers : (without tails tail.ticket).map (fun other =>
      if other.ticket = tail.ticket then { other with rest := rest } else other) =
        without tails tail.ticket := by
    refine List.map_congr_left (fun other hother => if_neg ?_) |>.trans (List.map_id _)
    simpa using (List.mem_filter.mp hother).2
  rw [hothers] at hmoved
  exact hmoved

theorem count_append (tails : List Tail) (tail : Tail) (p : Option Outcome → Bool) :
    count (tails ++ [tail]) p = count tails p + if p tail.rest.counted? then 1 else 0 := by
  rw [count, List.countP_append, List.countP_singleton]
  rfl

theorem count_without (hsingle : (tails.map Tail.ticket).Nodup) (htail : tail ∈ tails)
    (p : Option Outcome → Bool) : count tails p =
      count (without tails tail.ticket) p + if p tail.rest.counted? then 1 else 0 := by
  rw [count, (perm_without hsingle htail).countP_eq, List.countP_cons]
  rfl

theorem count_advanced (hsingle : (tails.map Tail.ticket).Nodup) (htail : tail ∈ tails)
    (rest : Rest) (p : Option Outcome → Bool) :
    count (advanced tails tail.ticket rest) p + (if p tail.rest.counted? then 1 else 0) =
      count tails p + if p rest.counted? then 1 else 0 := by
  rw [count, (perm_advanced hsingle htail rest).countP_eq, List.countP_cons,
    count_without hsingle htail p]
  exact Nat.add_right_comm _ _ _

end Tail

-- The attempts that have their slots.
def holding (tasks : List Task) (tails : List Tail) : List Task :=
  tasks.filter fun task => Tail.holds tails task.ticket

-- The attempts that are not over.
def ongoing (tasks : List Task) (tails : List Tail) : List Task :=
  tasks.filter fun task => Tail.spares tails task.ticket

theorem holding_congr {tasks : List Task} {tails tails' : List Tail}
    (h : ∀ task ∈ tasks, Tail.holds tails' task.ticket = Tail.holds tails task.ticket) :
    holding tasks tails' = holding tasks tails :=
  List.filter_congr h

-- An attempt that is over still has its slot.
theorem holding_ends (tasks : List Task) (tails : List Tail) (ticket : Nat) (job : JobId)
    (attempt : Nat) (sequel : State.Sequel) :
    holding tasks (tails ++ [⟨ticket, job, attempt, .slot sequel⟩]) = holding tasks tails :=
  holding_congr fun other _ => by simp [Tail.holds, Rest.hasSlot]

-- Which attempts these are depends on their tickets and on nothing else about them.
theorem filter_staged (p : Nat → Bool) (tasks : List Task) (ticket : Nat) (stage : Stage) :
    (Account.staged tasks ticket stage).filter (fun task => p task.ticket) =
      Account.staged (tasks.filter fun task => p task.ticket) ticket stage := by
  rw [Account.staged, List.filter_map, Account.staged]
  refine congrArg _ (List.filter_congr fun task _ => ?_)
  simp only [Function.comp_apply]
  split <;> rfl

@[simp] theorem holding_nil (tasks : List Task) : holding tasks [] = tasks :=
  List.filter_eq_self.mpr fun _ _ => rfl

@[simp] theorem ongoing_nil (tasks : List Task) : ongoing tasks [] = tasks :=
  List.filter_eq_self.mpr fun _ _ => rfl

section Ongoing

variable {tasks : List Task} {tails : List Tail} {tail : Tail} {task : Task}

theorem mem_holding (htask : task ∈ tasks) (hspared : Tail.spares tails task.ticket = true) :
    task ∈ holding tasks tails :=
  List.mem_filter.mpr ⟨htask, Tail.holds_of_spares hspared⟩

theorem mem_ongoing (htask : task ∈ tasks) (hspared : Tail.spares tails task.ticket = true) :
    task ∈ ongoing tasks tails :=
  List.mem_filter.mpr ⟨htask, hspared⟩

theorem ongoing_ends (tasks : List Task) (tails : List Tail) (tail : Tail) :
    ongoing tasks (tails ++ [tail]) = Account.without (ongoing tasks tails) tail.ticket := by
  rw [ongoing, Account.without, ongoing, List.filter_filter]
  refine List.filter_congr fun task _ => ?_
  simp [Tail.spares, Bool.and_comm, bne_comm]

theorem ongoing_advanced (tasks : List Task) (tails : List Tail) (ticket : Nat) (rest : Rest) :
    ongoing tasks (Tail.advanced tails ticket rest) = ongoing tasks tails :=
  List.filter_congr fun _ _ => Tail.spares_advanced tails ticket _ rest

theorem ongoing_closes (htail : tail ∈ tails) :
    ongoing (Account.without tasks tail.ticket) (Tail.without tails tail.ticket) =
      ongoing tasks tails := by
  rw [ongoing, Account.without, ongoing, List.filter_filter]
  refine List.filter_congr fun task _ => ?_
  by_cases hticket : task.ticket = tail.ticket
  · rw [hticket, Tail.spares_eq_false htail]
    simp
  · rw [Tail.spares_without_of_ne hticket]
    simp [hticket]

end Ongoing

namespace Account

variable {a a' : Account} {move : Move} {slots : Nat} {tails : List Tail} {tail : Tail}
  {task other : Task} {job : JobId} {gate : Gate} {rest : Rest}

-- The slots given out are those of the attempts that have not given theirs back, and those lent
-- out. An attempt that is over is there until it is reported.
structure Shared (slots : Nat) (tails : List Tail) (a : Account) : Prop where
  gate : a.gate.Sound
  capacity : a.gate.capacity = slots
  tickets : (a.tasks.map Task.ticket).Nodup
  issued : ∀ task ∈ a.tasks, task.ticket < a.issued
  single : (tails.map Tail.ticket).Nodup
  owned : ∀ tail ∈ tails, ∃ task ∈ a.tasks, task.ticket = tail.ticket ∧ task.job = tail.job
  holders : a.gate.holders.Perm ((holding a.tasks tails).map Task.job ++ a.lent)

namespace Shared

theorem of_same (h : a.Shared slots tails) (hgate : a'.gate = a.gate) (htasks : a'.tasks = a.tasks)
    (hissued : a.issued ≤ a'.issued) (hlent : a'.lent = a.lent) : a'.Shared slots tails where
  gate := hgate ▸ h.gate
  capacity := hgate ▸ h.capacity
  tickets := htasks ▸ h.tickets
  issued := fun task htask => Nat.lt_of_lt_of_le (h.issued task (htasks ▸ htask)) hissued
  single := h.single
  owned := htasks ▸ h.owned
  holders := by
    rw [hgate, htasks, hlent]
    exact h.holders

theorem lends (h : a.Shared slots tails) (hgate : a.gate.acquire? job = some gate) :
    ({ a with gate := gate, lent := a.lent ++ [job] } : Account).Shared slots tails :=
  { h with
    gate := h.gate.acquire hgate
    capacity := (Gate.acquire?_capacity hgate).trans h.capacity
    holders := by
      refine (Gate.perm_acquire h.holders hgate).trans ?_
      rw [← List.append_assoc]
      exact (List.perm_append_singleton job _).symm }

theorem takesBack (h : a.Shared slots tails) (hlent : job ∈ a.lent)
    (hgate : a.gate.release? job = some gate) :
    ({ a with gate := gate, lent := a.lent.erase job } : Account).Shared slots tails :=
  { h with
    gate := h.gate.release hgate
    capacity := (Gate.release?_capacity hgate).trans h.capacity
    holders := by
      have hjobs := h.holders.nodup_iff.mp h.gate.nodup
      have hnone : job ∉ (holding a.tasks tails).map Task.job := fun hjob =>
        List.disjoint_of_nodup_append hjobs hjob hlent
      rw [← List.erase_append_right _ hnone]
      exact Gate.perm_release h.holders hgate }

-- A new attempt has a new ticket.
theorem spares_issued (h : a.Shared slots tails) : Tail.spares tails a.issued = true := by
  refine Tail.spares_iff.mpr fun tail htail hticket => ?_
  obtain ⟨task, htask, hsame, -⟩ := h.owned tail htail
  have hlt := h.issued task htask
  omega

theorem mem_holders (h : a.Shared slots tails) (htask : task ∈ holding a.tasks tails) :
    task.job ∈ a.gate.holders :=
  h.holders.mem_iff.mpr (List.mem_append_left _ (List.mem_map_of_mem htask))

theorem eq_of_ticket (h : a.Shared slots tails) (htask : task ∈ a.tasks) (hother : other ∈ a.tasks)
    (he : task.ticket = other.ticket) : task = other :=
  List.inj_on_of_nodup_map h.tickets htask hother he

-- No two attempts at one job have a slot.
theorem eq_of_job (h : a.Shared slots tails) (htask : task ∈ holding a.tasks tails)
    (hother : other ∈ holding a.tasks tails) (he : task.job = other.job) : task = other := by
  have hjobs := h.holders.nodup_iff.mp h.gate.nodup
  exact List.inj_on_of_nodup_map (List.Nodup.of_append_left hjobs) htask hother he

-- An attempt that is taken away is missed.
theorem not_prefix_without (h : a.Shared slots tails) (htask : task ∈ a.tasks) :
    ¬ a.tasks <+: without a.tasks task.ticket := by
  intro hprefix
  have hlength := Keyed.length_filter_ne h.tickets htask
  have hle : a.tasks.length ≤ (without a.tasks task.ticket).length := hprefix.length_le
  unfold without at hle
  omega

theorem admits (h : a.Shared slots tails) (hadmits : a.Admits a') : a'.Shared slots tails := by
  obtain ⟨requeues, hgate, -⟩ := hadmits
  rename_i job gate
  refine ⟨h.gate.acquire hgate, (Gate.acquire?_capacity hgate).trans h.capacity, ?_, ?_, h.single,
    ?_, ?_⟩
  · rw [List.map_append]
    refine List.nodup_append.mpr ⟨h.tickets, List.nodup_singleton _, ?_⟩
    intro x hx y hy
    obtain ⟨task, htask, rfl⟩ := List.mem_map.mp hx
    rw [List.mem_singleton.mp hy]
    exact Nat.ne_of_lt (h.issued task htask)
  · intro task htask
    rcases List.mem_append.mp htask with htask | htask
    · exact Nat.lt_succ_of_lt (h.issued task htask)
    · rw [List.mem_singleton.mp htask]
      exact Nat.lt_succ_self _
  · intro tail htail
    obtain ⟨task, htask, hsame⟩ := h.owned tail htail
    exact ⟨task, List.mem_append_left _ htask, hsame⟩
  · have hnew : holding (a.tasks ++ [⟨a.issued, job, requeues, .starting⟩]) tails =
        holding a.tasks tails ++ [⟨a.issued, job, requeues, .starting⟩] := by
      simp [holding, Tail.holds_of_spares h.spares_issued]
    refine (Gate.perm_acquire h.holders hgate).trans ?_
    rw [hnew, List.map_append, List.append_assoc]
    exact List.perm_middle.symm

-- Nothing else that leaves the attempts there are as they are does anything to them.
theorem step (h : a.Shared slots tails) (hstep : Step move a a') (hkept : a.tasks <+: a'.tasks) :
    a'.Shared slots tails := by
  cases hstep with
  | quiet _ hissued => exact h.of_same rfl rfl hissued rfl
  | lent hgate => exact h.lends hgate
  | taken hgate _ => exact (h.lends hgate).of_same rfl rfl le_rfl rfl
  | returned _ hlent hgate => exact h.takesBack hlent hgate
  | admitted hadmits =>
    clear hkept
    induction hadmits with
    | refl => exact h
    | tail _ hadmits ih => exact ih.admits hadmits
  | begun _ _ _ _ =>
    refine h.of_same rfl (hkept.eq_of_length ?_).symm le_rfl rfl
    simp [staged]
  | skipped htask _ _ _ => exact absurd hkept (h.not_prefix_without htask)
  | ended htask _ _ _ _ => exact absurd hkept (h.not_prefix_without htask)
  | _ => exact h.of_same rfl rfl le_rfl rfl

theorem staged (h : a.Shared slots tails) (ticket : Nat) (stage : Stage) :
    ({ a with tasks := staged a.tasks ticket stage } : Account).Shared slots tails :=
  { h with
    tickets := by
      rw [staged_tickets]
      exact h.tickets
    issued := by
      intro task htask
      rcases mem_staged.mp htask with ⟨htask, -⟩ | ⟨old, hold, -, rfl⟩
      · exact h.issued task htask
      · exact h.issued old hold
    owned := by
      intro tail htail
      obtain ⟨task, htask, hticket, hjob⟩ := h.owned tail htail
      by_cases hstaged : task.ticket = ticket
      · exact ⟨_, mem_staged.mpr (.inr ⟨task, htask, hstaged, rfl⟩), hticket, hjob⟩
      · exact ⟨task, mem_staged.mpr (.inl ⟨htask, hstaged⟩), hticket, hjob⟩
    holders := by
      rw [holding, filter_staged, staged_jobs]
      exact h.holders }

theorem ends (h : a.Shared slots tails) (htask : task ∈ a.tasks)
    (hspared : Tail.spares tails task.ticket = true) (attempt : Nat) (sequel : State.Sequel) :
    a.Shared slots (tails ++ [⟨task.ticket, task.job, attempt, .slot sequel⟩]) :=
  { h with
    single := by
      rw [List.map_append]
      refine List.nodup_append.mpr ⟨h.single, List.nodup_singleton _, ?_⟩
      intro x hx y hy
      obtain ⟨tail, htail, rfl⟩ := List.mem_map.mp hx
      rw [List.mem_singleton.mp hy]
      exact Tail.spares_iff.mp hspared tail htail
    owned := by
      intro tail htail
      rcases List.mem_append.mp htail with htail | htail
      · exact h.owned tail htail
      · rw [List.mem_singleton.mp htail]
        exact ⟨task, htask, rfl, rfl⟩
    holders := by
      rw [holding_ends]
      exact h.holders }

theorem owned_advanced (h : a.Shared slots tails) (ticket : Nat) (rest : Rest) :
    ∀ tail ∈ Tail.advanced tails ticket rest,
      ∃ task ∈ a.tasks, task.ticket = tail.ticket ∧ task.job = tail.job := by
  intro tail htail
  obtain ⟨htail, -⟩ | ⟨old, hold, -, rfl⟩ := Tail.mem_advanced.mp htail
  · exact h.owned tail htail
  · exact h.owned old hold

-- The slot is given back once, and by then the attempt has had it all along.
theorem frees (h : a.Shared slots tails) (htail : tail ∈ tails) (hslot : tail.rest.hasSlot = true)
    (hrest : rest.hasSlot = false) : ∃ gate, a.gate.release? tail.job = some gate ∧
      ({ a with gate := gate } : Account).Shared slots (Tail.advanced tails tail.ticket rest) := by
  obtain ⟨task, htask, hticket, hjob⟩ := h.owned tail htail
  have hholds : Tail.holds tails task.ticket = true := by
    rw [hticket, Tail.holds_eq h.single htail, hslot]
  have hmem : task ∈ holding a.tasks tails := List.mem_filter.mpr ⟨htask, hholds⟩
  have hheld : tail.job ∈ a.gate.holders := hjob ▸ h.mem_holders hmem
  have hgate : a.gate.release? tail.job = some _ := Gate.release?_eq_some_iff.mpr ⟨hheld, rfl⟩
  refine ⟨_, hgate, { h with
    gate := h.gate.release hgate
    capacity := (Gate.release?_capacity hgate).trans h.capacity
    single := ?_
    owned := h.owned_advanced tail.ticket rest
    holders := ?_ }⟩
  · rw [Tail.tickets_advanced]
    exact h.single
  · have hless : holding a.tasks (Tail.advanced tails tail.ticket rest) =
        Account.without (holding a.tasks tails) task.ticket := by
      rw [holding, Account.without, holding, List.filter_filter]
      refine List.filter_congr fun other _ => ?_
      by_cases hother : other.ticket = tail.ticket
      · rw [hother, Tail.holds_advanced_self h.single htail, hrest, hticket]
        simp
      · rw [Tail.holds_advanced_of_ne hother, hticket]
        simp [hother]
    have hnodup : ((holding a.tasks tails).map Task.ticket).Nodup :=
      h.tickets.sublist (List.filter_sublist.map _)
    have htasks : (holding a.tasks tails).Perm
        (task :: Account.without (holding a.tasks tails) task.ticket) :=
      Keyed.perm_cons_filter hnodup hmem
    have hjobs := (htasks.map Task.job).append_right a.lent
    have herase := Gate.perm_release (h.holders.trans hjobs) hgate
    rw [List.map_cons, List.cons_append, hjob, List.erase_cons_head] at herase
    rw [hless]
    exact herase

theorem goesOn (h : a.Shared slots tails) (htail : tail ∈ tails)
    (hslot : rest.hasSlot = tail.rest.hasSlot) :
    a.Shared slots (Tail.advanced tails tail.ticket rest) :=
  { h with
    single := by
      rw [Tail.tickets_advanced]
      exact h.single
    owned := h.owned_advanced tail.ticket rest
    holders := by
      have hsame : holding a.tasks (Tail.advanced tails tail.ticket rest) =
          holding a.tasks tails := by
        refine holding_congr fun task _ => ?_
        by_cases hticket : task.ticket = tail.ticket
        · rw [hticket, Tail.holds_advanced_self h.single htail, Tail.holds_eq h.single htail, hslot]
        · exact Tail.holds_advanced_of_ne hticket rest
      rw [hsame]
      exact h.holders }

theorem closes (h : a.Shared slots tails) (htail : tail ∈ tails)
    (hslot : tail.rest.hasSlot = false) :
    ({ a with tasks := without a.tasks tail.ticket } : Account).Shared slots
      (Tail.without tails tail.ticket) :=
  { h with
    tickets := h.tickets.sublist (List.filter_sublist.map _)
    issued := fun task htask => h.issued task (mem_without.mp htask).1
    single := h.single.sublist (List.filter_sublist.map _)
    owned := by
      intro other hother
      obtain ⟨hother, hne⟩ := Tail.mem_without.mp hother
      obtain ⟨task, htask, hticket, hjob⟩ := h.owned other hother
      exact ⟨task, mem_without.mpr ⟨htask, hticket ▸ hne⟩, hticket, hjob⟩
    holders := by
      have hsame : holding (without a.tasks tail.ticket) (Tail.without tails tail.ticket) =
          holding a.tasks tails := by
        rw [holding, without, holding, List.filter_filter]
        refine List.filter_congr fun task _ => ?_
        by_cases hticket : task.ticket = tail.ticket
        · rw [hticket, Tail.holds_eq h.single htail, hslot]
          simp
        · rw [Tail.holds_without_of_ne hticket]
          simp [hticket]
      rw [hsame]
      exact h.holders }

end Shared

end Account

end Foreman.Engine
