import Foreman.Queue.Basic
import Foreman.Proofs.Gate.Slots
import Mathlib.Data.List.TakeWhile

namespace Foreman.Queue

variable {q q' : Queue} {g g' : Gate} {job other : JobId} {entry : Entry} {entries : List Entry}
  {priority : Int} {now : Nat}

def without (q : Queue) (job : JobId) : Queue :=
  { q with entries := q.entries.filter (fun entry => entry.job != job) }

def joined (q : Queue) (job : JobId) (priority : Int) (now : Nat) : Queue :=
  { q with entries := place ⟨job, priority, now, q.issued⟩ q.entries, issued := q.issued + 1 }

theorem contains_iff : q.contains job = true ↔ job ∈ q.order := by
  simp [contains]

theorem mem_order_iff : job ∈ q.order ↔ ∃ entry ∈ q.entries, entry.job = job := by
  simp [order]

theorem position?_eq_none_iff : q.position? job = none ↔ job ∉ q.order := by
  simp only [position?, Option.map_eq_none_iff, List.findIdx?_eq_none_iff, beq_eq_false_iff_ne]
  exact ⟨fun h hmem => h job hmem rfl, fun h other hother he => h (he ▸ hother)⟩

-- What becomes of a request to queue a job: it is in the queue already, it holds a slot, there
-- is no room, or it gets a place.
theorem enqueue_cases (q : Queue) (g : Gate) (job : JobId) (priority : Int) (now : Nat) :
    (job ∈ q.order ∧ ∃ position, q.enqueue g job priority now = .ok (position, q)) ∨
    (job ∉ q.order ∧ job ∈ g.holders ∧ q.enqueue g job priority now = .error (.slotHeld job)) ∨
    (job ∉ q.order ∧ job ∉ g.holders ∧ q.capacity ≤ q.length ∧
      q.enqueue g job priority now = .error (.queueFull q.capacity)) ∨
    (job ∉ q.order ∧ job ∉ g.holders ∧ q.length < q.capacity ∧
      ∃ position, q.enqueue g job priority now = .ok (position, q.joined job priority now)) := by
  unfold enqueue
  cases hposition : q.position? job with
  | some position =>
    refine .inl ⟨?_, position, rfl⟩
    by_contra hout
    rw [position?_eq_none_iff.mpr hout] at hposition
    cases hposition
  | none =>
    have hout := position?_eq_none_iff.mp hposition
    by_cases hheld : job ∈ g.holders
    · exact .inr (.inl ⟨hout, hheld, by simp [hheld]⟩)
    · by_cases hfull : q.capacity ≤ q.length
      · exact .inr (.inr (.inl ⟨hout, hheld, hfull, by simp [hheld, isSaturated, hfull]⟩))
      · exact .inr (.inr (.inr ⟨hout, hheld, by omega, _, by simp [hheld, isSaturated, hfull, joined]; rfl⟩))

-- A job leaves the queue together with a slot that it did not have.
theorem dequeue?_eq_some (h : q.dequeue? g = some (job, q', g')) :
    job ∈ q.order ∧ g.acquire? job = some g' ∧ q' = q.without job := by
  unfold dequeue? at h
  split at h
  · cases h
  · rename_i entry hentry
    split at h
    · cases h
    · rename_i taken htaken
      simp only [Option.some_inj, Prod.mk.injEq] at h
      obtain ⟨rfl, rfl, rfl⟩ := h
      exact ⟨mem_order_iff.mpr ⟨entry, List.mem_of_find?_eq_some hentry, rfl⟩, htaken, rfl⟩

theorem erase?_eq_some (h : q.erase? job = some q') :
    job ∈ q.order ∧ q' = q.without job := by
  unfold erase? at h
  split at h
  · rename_i hmem
    exact ⟨contains_iff.mp hmem, (Option.some_inj.mp h).symm⟩
  · cases h

-- A job that is not in the queue need not be taken out of it.
theorem erase?_getD (q : Queue) (job : JobId) : (q.erase? job).getD q = q.without job := by
  unfold erase?
  split
  · rfl
  · rename_i hout
    rw [contains_iff, mem_order_iff] at hout
    have hall : q.entries.filter (fun entry => entry.job != job) = q.entries := by
      rw [List.filter_eq_self]
      intro entry hentry
      simpa using fun he => hout ⟨entry, hentry, he⟩
    simp only [Option.getD_none, without, hall]

theorem order_without (q : Queue) (job : JobId) :
    (q.without job).order = q.order.filter (fun other => other != job) := by
  simp only [order, without, List.filter_map]
  rfl

@[simp] theorem mem_order_without :
    other ∈ (q.without job).order ↔ other ∈ q.order ∧ other ≠ job := by
  simp only [without, mem_order_iff, List.mem_filter, bne_iff_ne]
  constructor
  · rintro ⟨entry, ⟨hentry, hne⟩, rfl⟩
    exact ⟨⟨entry, hentry, rfl⟩, hne⟩
  · rintro ⟨⟨entry, hentry, rfl⟩, hne⟩
    exact ⟨entry, ⟨hentry, hne⟩, rfl⟩

@[simp] theorem mem_order_joined :
    other ∈ (q.joined job priority now).order ↔ other = job ∨ other ∈ q.order := by
  simp only [joined, mem_order_iff, mem_place]
  constructor
  · rintro ⟨found, rfl | hfound, rfl⟩
    · exact .inl rfl
    · exact .inr ⟨found, hfound, rfl⟩
  · rintro (rfl | ⟨found, hfound, rfl⟩)
    · exact ⟨_, .inl rfl, rfl⟩
    · exact ⟨found, .inr hfound, rfl⟩

-- A request that is granted finds the job in the queue.
theorem mem_order_of_enqueue {position : Nat}
    (hok : q.enqueue g job priority now = .ok (position, q')) : job ∈ q'.order := by
  rcases q.enqueue_cases g job priority now with
    ⟨hin, found, heq⟩ | ⟨-, -, heq⟩ | ⟨-, -, -, heq⟩ | ⟨-, -, -, found, heq⟩
  · cases heq.symm.trans hok
    exact hin
  · cases heq.symm.trans hok
  · cases heq.symm.trans hok
  · cases heq.symm.trans hok
    exact mem_order_joined.mpr (.inl rfl)

-- The entries go by priority, came before the present, and are about different jobs.
structure Ordered (q : Queue) (now : Nat) : Prop where
  sorted : q.entries.Pairwise (fun a b => a.priority ≤ b.priority)
  since_le : ∀ entry ∈ q.entries, entry.since ≤ now
  ticket_lt : ∀ entry ∈ q.entries, entry.ticket < q.issued
  distinct : q.order.Nodup
  bounded : q.length ≤ q.capacity

theorem ordered_ofCapacity (n now : Nat) : (ofCapacity n).Ordered now :=
  ⟨List.Pairwise.nil, by simp [ofCapacity], by simp [ofCapacity], List.nodup_nil, Nat.zero_le n⟩

theorem Ordered.later (h : q.Ordered now) {next : Nat} (hle : now ≤ next) : q.Ordered next :=
  { h with since_le := fun entry hentry => Nat.le_trans (h.since_le entry hentry) hle }

theorem Ordered.without (h : q.Ordered now) (job : JobId) : (q.without job).Ordered now where
  sorted := h.sorted.filter _
  since_le := fun entry hentry => h.since_le entry (List.mem_filter.mp hentry).1
  ticket_lt := fun entry hentry => h.ticket_lt entry (List.mem_filter.mp hentry).1
  distinct := h.distinct.sublist (List.filter_sublist.map _)
  bounded := Nat.le_trans (List.length_filter_le _ _) h.bounded

theorem place_eq_takeWhile_append (entry : Entry) (entries : List Entry) :
    Queue.place entry entries = entries.takeWhile (fun x => x.precedes entry) ++
      entry :: entries.dropWhile (fun x => x.precedes entry) := by
  induction entries with
  | nil => rfl
  | cons first rest ih =>
    unfold Queue.place
    split
    · rename_i hprecedes
      simp [hprecedes, ih]
    · rename_i hprecedes
      simp [hprecedes]

-- Whoever came before goes first unless their priority is worse.
theorem Ordered.precedes_iff (h : q.Ordered now) (hentry : entry ∈ q.entries) (job : JobId) :
    entry.precedes ⟨job, priority, now, q.issued⟩ = true ↔ entry.priority ≤ priority := by
  have hsince := h.since_le entry hentry
  have hticket := h.ticket_lt entry hentry
  simp only [Entry.precedes, Bool.or_eq_true, Bool.and_eq_true, decide_eq_true_eq, beq_iff_eq]
  omega

-- A new entry stands behind all those of a priority no worse than its own and before all others.
theorem Ordered.joined_split (h : q.Ordered now) (job : JobId) (priority : Int) :
    ∃ ahead behind, q.entries = ahead ++ behind ∧
      (q.joined job priority now).entries =
        ahead ++ ⟨job, priority, now, q.issued⟩ :: behind ∧
      (∀ entry ∈ ahead, entry.priority ≤ priority) ∧
      (∀ entry ∈ behind, priority < entry.priority) := by
  let entry : Entry := ⟨job, priority, now, q.issued⟩
  refine ⟨q.entries.takeWhile (fun x => x.precedes entry),
    q.entries.dropWhile (fun x => x.precedes entry), List.takeWhile_append_dropWhile.symm,
    place_eq_takeWhile_append entry q.entries, ?_, ?_⟩
  · intro x hx
    have hmem := (List.takeWhile_sublist _).subset hx
    have hprecedes := List.mem_takeWhile_imp hx
    exact (h.precedes_iff hmem job).mp hprecedes
  · intro x hx
    have hsub := List.dropWhile_sublist (l := q.entries) (fun x => x.precedes entry)
    have hsorted := h.sorted.sublist hsub
    cases hrest : q.entries.dropWhile (fun x => x.precedes entry) with
    | nil => simp [hrest] at hx
    | cons first rest =>
      have hfirst : first.precedes entry = false := by
        have := List.head?_dropWhile_not (fun x => x.precedes entry) q.entries
        simpa [hrest] using this
      have hmem : first ∈ q.entries := hsub.subset (hrest ▸ List.mem_cons_self)
      have hlt : priority < first.priority := by
        rw [← Int.not_le, ← h.precedes_iff hmem job]
        exact Bool.eq_false_iff.mp hfirst
      rw [hrest] at hx hsorted
      rcases List.mem_cons.mp hx with rfl | hx
      · exact hlt
      · exact Int.lt_of_lt_of_le hlt (List.rel_of_pairwise_cons hsorted hx)

theorem Ordered.joined (h : q.Ordered now) {job : JobId} (hout : job ∉ q.order)
    (hroom : q.length < q.capacity) (priority : Int) : (q.joined job priority now).Ordered now := by
  obtain ⟨ahead, behind, hentries, hplace, hahead, hbehind⟩ := h.joined_split job priority
  have hsorted := h.sorted
  have hdistinct := h.distinct
  rw [hentries, List.pairwise_append] at hsorted
  refine ⟨?_, ?_, ?_, ?_, ?_⟩
  · simp only [hplace]
    rw [List.pairwise_append, List.pairwise_cons]
    refine ⟨hsorted.1, ⟨fun x hx => Int.le_of_lt (hbehind x hx), hsorted.2.1⟩, ?_⟩
    intro x hx y hy
    rcases List.mem_cons.mp hy with rfl | hy
    · exact hahead x hx
    · exact hsorted.2.2 x hx y hy
  · intro x hx
    rcases mem_place.mp hx with rfl | hx
    · exact Nat.le_refl now
    · exact h.since_le x hx
  · intro x hx
    rcases mem_place.mp hx with rfl | hx
    · exact Nat.lt_succ_self _
    · exact Nat.lt_succ_of_lt (h.ticket_lt x hx)
  · have hperm : (q.joined job priority now).entries.Perm
        (⟨job, priority, now, q.issued⟩ :: q.entries) := by
      rw [hplace, hentries]
      exact List.perm_middle
    rw [order, (hperm.map Entry.job).nodup_iff]
    exact List.nodup_cons.mpr ⟨hout, hdistinct⟩
  · simp only [length, Queue.joined, length_place]
    exact hroom

-- The entries of one job. There is one at most in a queue that is in order.
def entriesOf (q : Queue) (job : JobId) : List Entry :=
  q.entries.filter (fun entry => entry.job == job)

theorem entriesOf_eq_nil_iff : q.entriesOf job = [] ↔ job ∉ q.order := by
  simp only [entriesOf, List.filter_eq_nil_iff, beq_iff_eq, mem_order_iff, not_exists, not_and]

theorem entriesOf_without (q : Queue) (job other : JobId) :
    (q.without job).entriesOf other = if other = job then [] else q.entriesOf other := by
  split
  · rename_i he
    subst he
    simp [entriesOf_eq_nil_iff]
  · rename_i hne
    simp only [entriesOf, without, List.filter_filter]
    apply List.filter_congr
    intro entry _
    by_cases he : entry.job = other
    · simp [he, hne]
    · simp [he]

theorem filter_place (keep : Entry → Bool) (entry : Entry) (entries : List Entry)
    (hkeep : keep entry = false) : (place entry entries).filter keep = entries.filter keep := by
  induction entries with
  | nil => simp [place, hkeep]
  | cons first rest ih =>
    unfold place
    split
    · simp only [List.filter_cons, ih]
    · simp only [List.filter_cons, hkeep, Bool.false_eq_true, if_false]

theorem entriesOf_joined (q : Queue) (priority : Int) (now : Nat) (hout : job ∉ q.order) :
    (q.joined job priority now).entriesOf other =
      if other = job then [⟨job, priority, now, q.issued⟩] else q.entriesOf other := by
  split
  · rename_i he
    subst he
    have hnone : q.entries.filter (fun entry => entry.job == other) = [] :=
      entriesOf_eq_nil_iff.mpr hout
    rw [← List.takeWhile_append_dropWhile (l := q.entries)
      (p := fun x => x.precedes ⟨other, priority, now, q.issued⟩), List.filter_append, List.append_eq_nil_iff] at hnone
    simp only [entriesOf, joined, place_eq_takeWhile_append, List.filter_append, List.filter_cons,
      hnone.1, hnone.2, beq_self_eq_true, if_true, List.nil_append]
  · rename_i hne
    exact filter_place _ _ _ (by simpa using fun he => hne he.symm)

end Foreman.Queue
