import Foreman.Queue.Indexed
import Foreman.Proofs.Keyed
import Foreman.Proofs.Queue.Roster

namespace Foreman

namespace Entry

variable {a b c : Entry}

theorem precedes_iff : a.precedes b = true ↔ a.priority < b.priority ∨
    (a.priority = b.priority ∧
      (a.since < b.since ∨ (a.since = b.since ∧ a.ticket < b.ticket))) := by
  simp [precedes]

theorem precedes_trans (hab : a.precedes b = true) (hbc : b.precedes c = true) :
    a.precedes c = true := by
  rw [precedes_iff] at hab hbc ⊢
  omega

theorem precedes_asymm (hab : a.precedes b = true) : b.precedes a = false := by
  rw [Bool.eq_false_iff, ne_eq, precedes_iff]
  rw [precedes_iff] at hab
  omega

-- What does not go before the least does not go before anything that the least does not go before.
theorem precedes_eq_false_trans (hab : a.precedes b = false) (hbc : b.precedes c = false) :
    a.precedes c = false := by
  rw [Bool.eq_false_iff, ne_eq, precedes_iff] at hab hbc ⊢
  omega

end Entry

namespace Queue

variable {q : Queue} {job : JobId} {priority : Int} {now : Nat} {entry : Entry}
  {entries : List Entry}

-- Each entry goes before all those behind it.
def Lined (entries : List Entry) : Prop := entries.Pairwise (fun a b => a.precedes b = true)

theorem Lined.place (h : Lined entries)
    (hentry : ∀ other ∈ entries, other.precedes entry = true ∨ entry.precedes other = true) :
    Lined (place entry entries) := by
  induction entries with
  | nil => exact List.pairwise_singleton _ entry
  | cons first rest ih =>
    obtain ⟨hfirst, hrest⟩ := List.pairwise_cons.mp h
    unfold Queue.place
    split
    · rename_i hprecedes
      refine List.pairwise_cons.mpr ⟨fun other hother => ?_, ?_⟩
      · rcases mem_place.mp hother with rfl | hother
        · exact hprecedes
        · exact hfirst other hother
      · exact ih hrest fun other hother => hentry other (List.mem_cons_of_mem _ hother)
    · rename_i hnot
      have hbefore : entry.precedes first = true :=
        (hentry first List.mem_cons_self).resolve_left hnot
      refine List.pairwise_cons.mpr ⟨fun other hother => ?_, h⟩
      rcases List.mem_cons.mp hother with rfl | hother
      · exact hbefore
      · exact Entry.precedes_trans hbefore (hfirst other hother)

-- A new entry goes before or behind every other, since no two have the same ticket.
theorem Lined.joined (h : Lined q.entries) (hordered : q.Ordered now) (job : JobId)
    (priority : Int) : Lined (q.joined job priority now).entries := by
  refine Lined.place h fun other hother => ?_
  have hticket := hordered.ticket_lt other hother
  have hsince := hordered.since_le other hother
  simp only [Entry.precedes_iff]
  omega

-- Two lists of the same entries, each in line, are the same.
theorem Lined.eq_of_perm {others : List Entry} (h : Lined entries) (hothers : Lined others)
    (hperm : entries.Perm others) : entries = others := by
  refine List.Perm.eq_of_pairwise (fun a b _ _ hab hba => ?_) h hothers hperm
  cases hba.symm.trans (Entry.precedes_asymm hab)

-- The places of the jobs from a number on.
def linesFrom (start : Nat) (entries : List Entry) : List (JobId × Nat) :=
  (entries.zipIdx start).map fun (entry, i) => (entry.job, i + 1)

theorem fst_linesFrom (start : Nat) (entries : List Entry) :
    (linesFrom start entries).map Prod.fst = entries.map Entry.job := by
  induction entries generalizing start with
  | nil => rfl
  | cons first rest ih =>
    simp only [linesFrom, List.zipIdx_cons, List.map_cons] at ih ⊢
    rw [ih]

theorem lt_of_mem_linesFrom {start : Nat} {line : JobId × Nat}
    (h : line ∈ linesFrom start entries) : start < line.2 := by
  obtain ⟨⟨entry, i⟩, hmem, rfl⟩ := List.mem_map.mp h
  exact Nat.lt_succ_of_le (List.le_snd_of_mem_zipIdx hmem)

theorem linesFrom_pairwise (start : Nat) (entries : List Entry) :
    (linesFrom start entries).Pairwise (fun a b => a.2 < b.2) := by
  induction entries generalizing start with
  | nil => exact List.Pairwise.nil
  | cons first rest ih =>
    simp only [linesFrom, List.zipIdx_cons, List.map_cons]
    exact List.pairwise_cons.mpr ⟨fun line hline => lt_of_mem_linesFrom hline, ih (start + 1)⟩

end Queue

namespace IndexedQueue

open Queue (Lined linesFrom)

variable {heap others entries : List Entry} {entry least : Entry} {job : JobId} {g : Gate}

theorem first?_eq_none_iff : first? heap = none ↔ heap = [] := by
  cases heap with
  | nil => simp [first?]
  | cons entry heap =>
    simp only [first?, reduceCtorEq, iff_false]
    split
    · simp
    · split <;> simp

theorem first?_least (h : first? heap = some (least, others)) :
    heap.Perm (least :: others) ∧ ∀ other ∈ others, other.precedes least = false := by
  induction heap generalizing least others with
  | nil => cases h
  | cons entry heap ih =>
    unfold first? at h
    split at h
    · rename_i hnone
      obtain ⟨rfl, rfl⟩ := Prod.mk.inj (Option.some_inj.mp h)
      rw [first?_eq_none_iff.mp hnone]
      exact ⟨List.Perm.refl _, by simp⟩
    · rename_i found rest hsome
      obtain ⟨hperm, hleast⟩ := ih hsome
      split at h
      · rename_i hprecedes
        obtain ⟨rfl, rfl⟩ := Prod.mk.inj (Option.some_inj.mp h)
        refine ⟨(hperm.cons entry).trans (List.Perm.swap _ _ _), fun other hother => ?_⟩
        rcases List.mem_cons.mp hother with rfl | hother
        · exact Entry.precedes_asymm hprecedes
        · exact hleast other hother
      · rename_i hnot
        obtain ⟨rfl, rfl⟩ := Prod.mk.inj (Option.some_inj.mp h)
        refine ⟨List.Perm.refl _, fun other hother => ?_⟩
        have hfound : found.precedes entry = false := by simpa using hnot
        rcases List.mem_cons.mp (hperm.subset hother) with rfl | hother
        · exact hfound
        · exact Entry.precedes_eq_false_trans (hleast other hother) hfound

-- The heap gives out the entries in line.
theorem first?_of_lined (h : Lined (entry :: entries)) (hperm : heap.Perm (entry :: entries)) :
    ∃ others, first? heap = some (entry, others) ∧ others.Perm entries := by
  cases hfirst : first? heap with
  | none =>
    rw [first?_eq_none_iff.mp hfirst] at hperm
    cases hperm.nil_eq
  | some found =>
    obtain ⟨least, others⟩ := found
    obtain ⟨hheap, hleast⟩ := first?_least hfirst
    have hall := hheap.symm.trans hperm
    have he : least = entry := by
      rcases List.mem_cons.mp (hall.subset List.mem_cons_self) with he | hmem
      · exact he
      · rcases List.mem_cons.mp (hall.symm.subset List.mem_cons_self) with he | hother
        · exact he.symm
        · have hbefore := (List.pairwise_cons.mp h).1 least hmem
          cases hbefore.symm.trans (hleast entry hother)
    subst he
    exact ⟨others, rfl, (List.perm_cons least).mp hall⟩

theorem sorted_perm (heap : List Entry) : (sorted heap).Perm heap := by
  induction heap with
  | nil => exact List.Perm.refl []
  | cons entry heap ih =>
    have hplace : (Queue.place entry (sorted heap)).Perm (entry :: sorted heap) := by
      rw [Queue.place_eq_takeWhile_append]
      refine List.perm_middle.trans ?_
      rw [List.takeWhile_append_dropWhile]
    exact hplace.trans (ih.cons entry)

theorem sorted_eq (h : Lined entries) (hperm : heap.Perm entries) : sorted heap = entries := by
  have happart : heap.Pairwise (fun a b => a.precedes b = true ∨ b.precedes a = true) :=
    (List.Perm.pairwise_iff (fun hab => hab.symm) hperm).mpr (h.imp fun hab => .inl hab)
  have hlined : Lined (sorted heap) := by
    clear hperm
    induction heap with
    | nil => exact List.Pairwise.nil
    | cons entry heap ih =>
      obtain ⟨hentry, hrest⟩ := List.pairwise_cons.mp happart
      refine (ih hrest).place fun other hother => ?_
      exact (hentry other ((sorted_perm heap).subset hother)).symm
  exact hlined.eq_of_perm h ((sorted_perm heap).trans hperm)

-- Where each job has one line, noting all lines one after the other gives just these lines.
theorem foldl_note {index lines : List (JobId × Nat)}
    (h : ((index ++ lines).map Prod.fst).Nodup) : lines.foldl note index = index ++ lines := by
  induction lines generalizing index with
  | nil => simp
  | cons line lines ih =>
    have hout : ∀ other ∈ index, other.1 ≠ line.1 := by
      intro other hother he
      rw [List.map_append] at h
      refine List.disjoint_of_nodup_append h (List.mem_map_of_mem hother) ?_
      simp [he]
    have hnote : note index line = index ++ [line] := by
      rw [note, List.filter_eq_self.mpr]
      simpa using hout
    rw [List.foldl_cons, hnote, ih, List.append_assoc, List.singleton_append]
    simpa using h

theorem look_linesFrom (start : Nat) (entries : List Entry) (job : JobId) :
    look (linesFrom start entries) job =
      ((entries.map Entry.job).findIdx? (· == job)).map (· + (start + 1)) := by
  induction entries generalizing start with
  | nil => rfl
  | cons first rest ih =>
    simp only [look, linesFrom, List.zipIdx_cons, List.map_cons, List.find?_cons,
      List.findIdx?_cons] at ih ⊢
    by_cases he : first.job = job
    · simp [he]
    · simp only [beq_false_of_ne he, Bool.false_eq_true, if_false, ih, Option.map_map]
      congr 1
      funext i
      simp only [Function.comp_apply]
      omega

theorem order_linesFrom (start : Nat) (entries : List Entry) :
    ((linesFrom start entries).mergeSort (fun a b => a.2 ≤ b.2)).map Prod.fst =
      entries.map Entry.job := by
  rw [List.mergeSort_of_pairwise, Queue.fst_linesFrom]
  refine (Queue.linesFrom_pairwise start entries).imp fun hlt => ?_
  simpa using Nat.le_of_lt hlt

theorem serve_of_first? {entry : Entry} {others passed : List Entry}
    (hfirst : first? heap = some (entry, others)) :
    serve g heap passed = if g.holds entry.job then serve g others (passed ++ [entry])
      else (g.acquire? entry.job).elim (none, heap ++ passed)
        fun g => (some (entry.job, g), others ++ passed) := by
  rw [serve]
  split
  · rename_i hnone
    cases hnone.symm.trans hfirst
  · rename_i found rest hsome
    obtain ⟨rfl, rfl⟩ := Prod.mk.inj (Option.some_inj.mp (hsome.symm.trans hfirst))
    cases g.acquire? found.job <;> rfl

-- Entries of jobs with slots are passed over, and the first other one is served, if at all.
theorem serve_cases (h : Lined entries) (hperm : heap.Perm entries) (passed : List Entry) :
    (∃ entry gate others, entries.find? (fun entry => !g.holds entry.job) = some entry ∧
      g.acquire? entry.job = some gate ∧
      serve g heap passed = (some (entry.job, gate), others) ∧
      (entry :: others).Perm (entries ++ passed)) ∨
    ((∀ entry, entries.find? (fun entry => !g.holds entry.job) = some entry →
        g.acquire? entry.job = none) ∧
      ∃ others, serve g heap passed = (none, others) ∧ others.Perm (entries ++ passed)) := by
  induction entries generalizing heap passed with
  | nil =>
    obtain rfl := hperm.eq_nil
    refine .inr ⟨by simp, passed, ?_, by simp⟩
    rw [serve]
    rfl
  | cons entry entries ih =>
    obtain ⟨others, hfirst, hothers⟩ := first?_of_lined h hperm
    rw [serve_of_first? hfirst]
    by_cases hheld : g.holds entry.job = true
    · have hmiddle : (entries ++ (passed ++ [entry])).Perm ((entry :: entries) ++ passed) := by
        rw [← List.append_assoc]
        exact List.perm_append_singleton entry _
      simp only [hheld, if_true, List.find?_cons, Bool.not_true]
      rcases ih (List.pairwise_cons.mp h).2 hothers (passed ++ [entry]) with
        ⟨found, gate, rest, hfind, hgate, hrest, hall⟩ | ⟨hnone, rest, hrest, hall⟩
      · exact .inl ⟨found, gate, rest, hfind, hgate, hrest, hall.trans hmiddle⟩
      · exact .inr ⟨hnone, rest, hrest, hall.trans hmiddle⟩
    · have hfree : g.holds entry.job = false := by simpa using hheld
      simp only [hfree, Bool.false_eq_true, if_false, List.find?_cons, Bool.not_false]
      cases hgate : g.acquire? entry.job with
      | some gate =>
        refine .inl ⟨entry, gate, others ++ passed, rfl, hgate, rfl, ?_⟩
        exact (hothers.append_right passed).cons entry
      | none =>
        refine .inr ⟨fun found hfound => ?_, heap ++ passed, rfl, hperm.append_right passed⟩
        obtain rfl := Option.some_inj.mp hfound
        exact hgate

def discipline : Discipline IndexedQueue where
  enqueue := enqueue
  dequeue q g := q.dequeue g
  erase? := erase?
  order := order
  position? := position?
  length := length

-- The heap holds the entries of the queue, and the index is that of their places.
structure Indexes (now : Nat) (q : IndexedQueue) (p : Queue) : Prop where
  ordered : p.Ordered now
  lined : Lined p.entries
  capacity : q.capacity = p.capacity
  issued : q.issued = p.issued
  heap : q.heap.Perm p.entries
  index : q.index = linesFrom 0 p.entries

namespace Indexes

variable {q : IndexedQueue} {p : Queue} {now : Nat}

-- An index that is made anew is right, whatever it was before.
theorem reindexed (hordered : p.Ordered now) (hlined : Lined p.entries)
    (hcapacity : q.capacity = p.capacity) (hissued : q.issued = p.issued)
    (hheap : q.heap.Perm p.entries) : Indexes now q.reindexed p where
  ordered := hordered
  lined := hlined
  capacity := hcapacity
  issued := hissued
  heap := hheap
  index := by
    simp only [IndexedQueue.reindexed, sorted_eq hlined hheap]
    refine foldl_note ?_
    rw [List.nil_append]
    exact (Queue.fst_linesFrom 0 p.entries).symm ▸ hordered.distinct

theorem position?_eq (h : Indexes now q p) (job : JobId) : q.position? job = p.position? job := by
  simp only [position?, h.index, look_linesFrom, Queue.position?, Queue.order, Nat.zero_add]

theorem length_eq (h : Indexes now q p) : q.length = p.length := h.heap.length_eq

theorem order_eq (h : Indexes now q p) : q.order = p.order := by
  simp only [order, h.index, order_linesFrom, Queue.order]

theorem without (h : Indexes now q p) {others : List Entry} (index : List (JobId × Nat))
    (hothers : others.Perm (p.without job).entries) :
    Indexes now { q with heap := others, index := index }.reindexed (p.without job) :=
  reindexed (h.ordered.without job) (h.lined.filter _) h.capacity h.issued hothers

-- With an entry that is served, all entries of its job are gone.
theorem perm_without (h : Indexes now q p) {others : List Entry}
    (hperm : (entry :: others).Perm p.entries) : others.Perm (p.without entry.job).entries := by
  have hmem : entry ∈ p.entries := hperm.subset List.mem_cons_self
  exact (List.perm_cons entry).mp
    (hperm.trans (Keyed.perm_cons_filter h.ordered.distinct hmem))

end Indexes

theorem simulates_queue : discipline.Simulates Queue.discipline Indexes where
  enqueue := by
    intro now q p h g job priority
    simp only [discipline, Queue.discipline, enqueue, Queue.enqueue, h.position?_eq]
    cases hposition : p.position? job with
    | some place => exact .inl ⟨place, q, p, rfl, rfl, h⟩
    | none =>
      have hout : job ∉ p.order := Queue.position?_eq_none_iff.mp hposition
      by_cases hheld : g.holds job = true
      · exact .inr ⟨_, if_pos hheld, if_pos hheld⟩
      · by_cases hfull : p.capacity ≤ p.length
        · refine .inr ⟨.queueFull p.capacity, ?_, ?_⟩
          · simp [hheld, h.capacity, h.length_eq, hfull]
          · simp [hheld, Queue.isSaturated, hfull]
        · let next : IndexedQueue := { q with
            heap := ⟨job, priority, now, q.issued⟩ :: q.heap
            issued := q.issued + 1 }.reindexed
          have hnext : Indexes now next (p.joined job priority now) := by
            refine .reindexed (h.ordered.joined hout (Nat.lt_of_not_le hfull) priority)
              (h.lined.joined h.ordered job priority) h.capacity ?_ ?_
            · simp only [Queue.joined, h.issued]
            · rw [h.issued, Queue.joined, Queue.place_eq_takeWhile_append]
              refine (h.heap.cons _).trans ?_
              refine List.Perm.trans ?_ List.perm_middle.symm
              rw [List.takeWhile_append_dropWhile]
          refine .inl ⟨(next.position? job).getD next.length, next, p.joined job priority now,
            ?_, ?_, hnext⟩
          · rw [if_neg hheld, if_neg (by rw [h.capacity, h.length_eq]; exact hfull)]
          · rw [if_neg hheld, if_neg (by simp [Queue.isSaturated, hfull])]
            rw [hnext.position?_eq, hnext.length_eq]
            rfl
  dequeue := by
    intro now q p h g
    simp only [discipline, Queue.discipline, dequeue, Queue.dequeue?]
    rcases serve_cases (g := g) h.lined h.heap [] with
      ⟨entry, gate, others, hfind, hgate, hserve, hothers⟩ | ⟨hnone, others, hserve, hothers⟩
    · rw [List.append_nil] at hothers
      simp only [hserve, hfind, hgate, true_and]
      exact h.without q.index (h.perm_without hothers)
    · rw [List.append_nil] at hothers
      have hsame : Indexes now { q with heap := others } p := { h with heap := hothers }
      simp only [hserve]
      cases hfind : p.entries.find? (fun entry => !g.holds entry.job) with
      | none => exact ⟨rfl, hsame⟩
      | some entry =>
        simp only [hnone entry hfind]
        exact ⟨trivial, hsame⟩
  erase := by
    intro now q p h job
    simp only [discipline, Queue.discipline, erase?, Queue.erase?, h.position?_eq]
    by_cases hin : p.contains job = true
    · have hsome : (p.position? job).isSome = true := by
        rw [Option.isSome_iff_ne_none, ne_eq, Queue.position?_eq_none_iff, not_not]
        exact Queue.contains_iff.mp hin
      refine .inl ⟨_, p.without job, if_pos hsome, if_pos hin, ?_⟩
      exact h.without _ (h.heap.filter _)
    · have hnone : p.position? job = none :=
        Queue.position?_eq_none_iff.mpr fun hmem => hin (Queue.contains_iff.mpr hmem)
      exact .inr ⟨by simp [hnone], if_neg hin⟩
  later := fun h hle => { h with ordered := h.ordered.later hle }
  order := Indexes.order_eq
  position := Indexes.position?_eq
  length := Indexes.length_eq

end IndexedQueue

namespace IndexedQueue

theorem indexes_ofCapacity (n now : Nat) : Indexes now (ofCapacity n) (.ofCapacity n) where
  ordered := Queue.ordered_ofCapacity n now
  lined := List.Pairwise.nil
  capacity := rfl
  issued := rfl
  heap := List.Perm.refl []
  index := rfl

end IndexedQueue

-- Whatever happens at a queue, and whether it is kept as a heap with an index or as a list of
-- entries: all errands are answered as by the plain list of jobs and priorities, all that can be
-- seen of the queue is what that list shows, and the list is in order.
theorem kept_as_roster (capacity now : Nat) (gate : Gate) (errands : List Errand) :
    let plain := Desk.run Roster.discipline ⟨.ofCapacity capacity, gate, now⟩ errands
    let kept := Desk.run IndexedQueue.discipline ⟨.ofCapacity capacity, gate, now⟩ errands
    let listed := Desk.run Queue.discipline ⟨.ofCapacity capacity, gate, now⟩ errands
    (kept.1 = plain.1 ∧ kept.2.Shows IndexedQueue.discipline Roster.discipline plain.2) ∧
      (listed.1 = plain.1 ∧ listed.2.Shows Queue.discipline Roster.discipline plain.2) ∧
      plain.2.queue.InOrder capacity := by
  intro plain kept listed
  obtain ⟨hreplies, hlisted⟩ := Queue.simulates_roster.run
    (.init gate (Queue.listed_ofCapacity capacity now)) errands
  obtain ⟨hkeptReplies, hkept⟩ := IndexedQueue.simulates_queue.run
    (.init gate (IndexedQueue.indexes_ofCapacity capacity now)) errands
  have hshows := Queue.simulates_roster.shows hlisted
  have hinOrder := hlisted.queue.inOrder
  rw [Roster.capacity_run] at hinOrder
  exact ⟨⟨hkeptReplies.trans hreplies, (IndexedQueue.simulates_queue.shows hkept).trans hshows⟩,
    ⟨hreplies, hshows⟩, hinOrder⟩

end Foreman
