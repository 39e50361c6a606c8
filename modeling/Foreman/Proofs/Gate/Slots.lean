import Foreman.Gate.Line
import Mathlib.Data.List.Perm.Basic
import Mathlib.Data.List.Nodup

namespace Foreman

namespace Gate

-- The counter and the list of holders agree, no job has two slots, and no more slots are given
-- out than there are.
structure Sound (g : Gate) : Prop where
  taken_eq : g.taken = g.holders.length
  nodup : g.holders.Nodup
  bounded : g.taken ≤ g.capacity

variable {g g' : Gate} {job other : JobId}

@[simp] theorem holds_iff : g.holds job = true ↔ job ∈ g.holders := by
  simp [holds]

@[simp] theorem holds_eq_false_iff : g.holds job = false ↔ job ∉ g.holders := by
  simp [holds]

theorem acquire?_eq_some_iff :
    g.acquire? job = some g' ↔ job ∉ g.holders ∧ g.taken < g.capacity ∧
      g' = { g with taken := g.taken + 1, holders := g.holders ++ [job] } := by
  unfold acquire?
  simp only [holds_iff]
  split
  · simp_all
  · split
    · simp only [reduceCtorEq, false_iff]
      intro h
      omega
    · rw [Option.some_inj]
      constructor
      · rintro rfl
        exact ⟨by assumption, by omega, rfl⟩
      · rintro ⟨-, -, rfl⟩
        rfl

theorem release?_eq_some_iff :
    g.release? job = some g' ↔ job ∈ g.holders ∧
      g' = { g with taken := g.taken - 1, holders := g.holders.erase job } := by
  unfold release?
  simp only [holds_iff]
  split <;> simp_all [eq_comm]

theorem sound_ofCapacity (n : Nat) : (ofCapacity n).Sound := ⟨rfl, List.nodup_nil, Nat.zero_le n⟩

theorem Sound.acquire (h : g.Sound) (hg : g.acquire? job = some g') : g'.Sound := by
  obtain ⟨hfree, hroom, rfl⟩ := acquire?_eq_some_iff.1 hg
  refine ⟨?_, ?_, hroom⟩
  · simp [h.taken_eq]
  · exact List.nodup_append.mpr ⟨h.nodup, List.nodup_singleton job, by
      intro a ha b hb
      rw [List.mem_singleton.mp hb]
      rintro rfl
      exact hfree ha⟩

theorem Sound.release (h : g.Sound) (hg : g.release? job = some g') : g'.Sound := by
  obtain ⟨hheld, rfl⟩ := release?_eq_some_iff.1 hg
  refine ⟨?_, h.nodup.erase job, ?_⟩
  · simp [h.taken_eq, List.length_erase_of_mem hheld]
  · have := h.bounded
    simp only
    omega

theorem acquire?_capacity (hg : g.acquire? job = some g') : g'.capacity = g.capacity := by
  obtain ⟨-, -, rfl⟩ := acquire?_eq_some_iff.1 hg
  rfl

theorem release?_capacity (hg : g.release? job = some g') : g'.capacity = g.capacity := by
  obtain ⟨-, rfl⟩ := release?_eq_some_iff.1 hg
  rfl

theorem free_acquire (hg : g.acquire? job = some g') : g'.free + 1 = g.free := by
  obtain ⟨-, hroom, rfl⟩ := acquire?_eq_some_iff.1 hg
  simp only [free]
  omega

theorem free_release (h : g.Sound) (hg : g.release? job = some g') : g'.free = g.free + 1 := by
  obtain ⟨hheld, rfl⟩ := release?_eq_some_iff.1 hg
  have hpos := List.length_pos_of_mem hheld
  have := h.taken_eq
  have := h.bounded
  simp only [free]
  omega

theorem mem_holders_acquire (hg : g.acquire? job = some g') :
    other ∈ g'.holders ↔ other ∈ g.holders ∨ other = job := by
  obtain ⟨-, -, rfl⟩ := acquire?_eq_some_iff.1 hg
  simp

theorem mem_holders_release (h : g.Sound) (hg : g.release? job = some g') :
    other ∈ g'.holders ↔ other ≠ job ∧ other ∈ g.holders := by
  obtain ⟨-, rfl⟩ := release?_eq_some_iff.1 hg
  exact h.nodup.mem_erase_iff

theorem perm_acquire {jobs : List JobId} (h : g.holders.Perm jobs)
    (hg : g.acquire? job = some g') : g'.holders.Perm (job :: jobs) := by
  obtain ⟨-, -, rfl⟩ := acquire?_eq_some_iff.1 hg
  exact (List.perm_append_singleton job g.holders).trans (h.cons job)

theorem perm_release {jobs : List JobId} (h : g.holders.Perm jobs)
    (hg : g.release? job = some g') : g'.holders.Perm (jobs.erase job) := by
  obtain ⟨-, rfl⟩ := release?_eq_some_iff.1 hg
  exact h.erase job

end Gate

namespace Line

variable {l l' : Line} {job : JobId} {now tag : Nat} {call other : Call} {verdict : Verdict}

def calls (l : Line) : List Call := l.waiting ++ l.woken

@[simp] theorem wakeOne_gate (l : Line) : l.wakeOne.gate = l.gate := by
  unfold wakeOne
  split <;> rfl

theorem wakeOne_calls_perm (l : Line) : l.wakeOne.calls.Perm l.calls := by
  unfold wakeOne
  split
  · exact List.Perm.refl _
  · rename_i first rest hwaiting
    simp only [calls, hwaiting, List.cons_append]
    rw [← List.append_assoc]
    exact List.perm_append_singleton first _

theorem wakeOne_waiting (hmem : call ∈ l.wakeOne.waiting) : call ∈ l.waiting := by
  unfold wakeOne at hmem
  split at hmem
  · exact hmem
  · rename_i first rest hwaiting
    exact hwaiting ▸ List.mem_cons_of_mem _ hmem

theorem release?_eq_some_iff :
    l.release? job = some l' ↔ ∃ g, l.gate.release? job = some g ∧
      l' = wakeOne { l with gate := g } := by
  simp only [release?, Option.map_eq_some_iff]
  constructor <;> rintro ⟨g, hg, hl⟩ <;> exact ⟨g, hg, hl.symm⟩

theorem release?_gate (h : l.release? job = some l') : l.gate.release? job = some l'.gate := by
  obtain ⟨g, hg, rfl⟩ := release?_eq_some_iff.1 h
  simpa using hg

theorem release?_calls (h : l.release? job = some l') : l'.calls.Perm l.calls := by
  obtain ⟨g, -, rfl⟩ := release?_eq_some_iff.1 h
  exact wakeOne_calls_perm _

theorem look_cases (h : l.look now call = (l', verdict)) :
    (∃ g, l.gate.acquire? call.job = some g ∧ l' = { l with gate := g } ∧ verdict = .granted) ∨
    (l.gate.acquire? call.job = none ∧
      (call.job ∈ l.gate.holders ∨ call.deadline ≤ now) ∧ l' = l ∧ verdict = .refused) ∨
    (l.gate.acquire? call.job = none ∧ call.job ∉ l.gate.holders ∧ now < call.deadline ∧
      l' = { l with waiting := l.waiting ++ [call] } ∧ verdict = .waits) := by
  unfold look at h
  split at h
  · rename_i g hg
    obtain ⟨rfl, rfl⟩ := Prod.mk.inj h
    exact .inl ⟨g, hg, rfl, rfl⟩
  · rename_i hnone
    split at h
    · rename_i hheld
      obtain ⟨rfl, rfl⟩ := Prod.mk.inj h
      exact .inr (.inl ⟨hnone, .inl (Gate.holds_iff.1 hheld), rfl, rfl⟩)
    · rename_i hheld
      split at h
      · rename_i hlate
        obtain ⟨rfl, rfl⟩ := Prod.mk.inj h
        exact .inr (.inl ⟨hnone, .inr hlate, rfl, rfl⟩)
      · rename_i hlate
        obtain ⟨rfl, rfl⟩ := Prod.mk.inj h
        exact .inr (.inr ⟨hnone, mt Gate.holds_iff.2 hheld, by omega, rfl, rfl⟩)

-- A first look is like any other, unless the clock cannot tell when the time of the call is up.
theorem lookFirst_cases (h : l.lookFirst now call = (l', verdict)) :
    (Span.InRange call.deadline ∧ l.look now call = (l', verdict)) ∨
      (¬ Span.InRange call.deadline ∧ l' = l ∧ verdict = .panics) := by
  unfold lookFirst at h
  split at h
  · rename_i hrange
    exact .inl ⟨hrange, h⟩
  · rename_i hrange
    obtain ⟨rfl, rfl⟩ := Prod.mk.inj h
    exact .inr ⟨hrange, rfl, rfl⟩

theorem look_gate (h : l.look now call = (l', verdict)) :
    (verdict = .granted ∧ l.gate.acquire? call.job = some l'.gate) ∨
      (verdict ≠ .granted ∧ l'.gate = l.gate) := by
  obtain ⟨g, hg, rfl, rfl⟩ | ⟨-, -, rfl, rfl⟩ | ⟨-, -, -, rfl, rfl⟩ := look_cases h
  · exact .inl ⟨rfl, hg⟩
  · exact .inr ⟨by simp, rfl⟩
  · exact .inr ⟨by simp, rfl⟩

theorem look_calls (h : l.look now call = (l', verdict)) (hmem : other ∈ l'.calls) :
    other ∈ l.calls ∨ other = call := by
  obtain ⟨g, hg, rfl, -⟩ | ⟨-, -, rfl, -⟩ | ⟨-, -, -, rfl, -⟩ := look_cases h
  · exact .inl hmem
  · exact .inl hmem
  · simp only [calls, List.mem_append, List.mem_singleton] at hmem ⊢
    tauto

theorem lookFirst_gate (h : l.lookFirst now call = (l', verdict)) :
    (verdict = .granted ∧ l.gate.acquire? call.job = some l'.gate) ∨
      (verdict ≠ .granted ∧ l'.gate = l.gate) := by
  obtain ⟨-, hlook⟩ | ⟨-, rfl, rfl⟩ := lookFirst_cases h
  · exact look_gate hlook
  · exact .inr ⟨by simp, rfl⟩

theorem lookFirst_calls (h : l.lookFirst now call = (l', verdict)) (hmem : other ∈ l'.calls) :
    other ∈ l.calls ∨ other = call := by
  obtain ⟨-, hlook⟩ | ⟨-, rfl, -⟩ := lookFirst_cases h
  · exact look_calls hlook hmem
  · exact .inl hmem

theorem resume_cases (h : l.resume now = some (call, l', verdict)) :
    call ∈ l.woken ∧ l.lookAgain now call = (l', verdict) := by
  simp only [resume, Option.map_eq_some_iff, Prod.mk.injEq] at h
  obtain ⟨first, hfirst, rfl, hlook⟩ := h
  exact ⟨List.mem_of_head? hfirst, hlook⟩

theorem lookAgain_gate (h : l.lookAgain now call = (l', verdict)) :
    (verdict = .granted ∧ l.gate.acquire? call.job = some l'.gate) ∨
      (verdict ≠ .granted ∧ l'.gate = l.gate) := by
  unfold lookAgain at h
  have hgate := look_gate h
  exact hgate

theorem lookAgain_calls (h : l.lookAgain now call = (l', verdict)) (hmem : other ∈ l'.calls) :
    other ∈ l.calls ∨ other = call := by
  unfold lookAgain at h
  rcases look_calls h hmem with hold | hnew
  · simp only [calls, List.mem_append, List.mem_filter] at hold ⊢
    tauto
  · exact .inr hnew

@[simp] theorem withdraw_gate (l : Line) (tag : Nat) : (l.withdraw tag).gate = l.gate := by
  unfold withdraw
  split <;> simp

theorem withdraw_calls (hmem : other ∈ (l.withdraw tag).calls) : other ∈ l.calls := by
  unfold withdraw at hmem
  split at hmem
  · rw [(wakeOne_calls_perm _).mem_iff] at hmem
    simp only [calls, List.mem_append, List.mem_filter] at hmem ⊢
    tauto
  · simp only [calls, List.mem_append, List.mem_filter] at hmem ⊢
    tauto

-- With no tag used twice, the withdrawn call is the only one to go.
theorem withdraw_calls_perm (htags : (l.calls.map Call.tag).Nodup) :
    (l.withdraw tag).calls.Perm (l.calls.filter (fun call => call.tag != tag)) := by
  unfold withdraw
  simp only [calls, List.filter_append]
  split
  · rename_i hany
    obtain ⟨call, hcall, htag⟩ := List.any_eq_true.mp hany
    have hwaiting : l.waiting.filter (fun call => call.tag != tag) = l.waiting := by
      rw [List.filter_eq_self]
      intro other hother
      rw [calls, List.map_append] at htags
      have hdisjoint := List.disjoint_of_nodup_append htags (List.mem_map_of_mem hother)
      simp only [bne_iff_ne, ne_eq]
      intro he
      exact hdisjoint (he ▸ beq_iff_eq.mp htag ▸ List.mem_map_of_mem hcall)
    rw [hwaiting]
    exact wakeOne_calls_perm _
  · rename_i hany
    have hwoken : l.woken.filter (fun call => call.tag != tag) = l.woken := by
      rw [List.filter_eq_self]
      intro other hother
      simp only [List.any_eq_true, beq_iff_eq, not_exists, not_and] at hany
      simpa using hany other hother
    rw [hwoken]

theorem withdraw_waiting (htags : (l.calls.map Call.tag).Nodup)
    (hmem : other ∈ (l.withdraw tag).waiting) : other ∈ l.waiting ∧ other.tag ≠ tag := by
  have hcalls : other ∈ (l.withdraw tag).calls := List.mem_append_left _ hmem
  rw [(withdraw_calls_perm htags).mem_iff, List.mem_filter] at hcalls
  refine ⟨?_, by simpa using hcalls.2⟩
  unfold withdraw at hmem
  split at hmem
  · have hwaiting := wakeOne_waiting hmem
    exact hwaiting
  · exact (List.mem_filter.mp hmem).1

theorem expire_calls (hmem : other ∈ (l.expire now).1.calls) : other ∈ l.calls := by
  simp only [expire, calls, List.mem_append, List.mem_filter] at hmem ⊢
  tauto

end Line

end Foreman
