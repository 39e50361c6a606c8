import Foreman.Proofs.Queue.Service

namespace Foreman

namespace Queue

variable {q : Queue} {now i j : Nat} {a b job : JobId} {x y : Entry} {ahead behind : List Entry}

theorem position?_of_nodup (h : q.order.Nodup) (hentries : q.entries = ahead ++ x :: behind) :
    q.position? x.job = some (ahead.length + 1) := by
  refine position?_of_split hentries fun other hother he => ?_
  rw [order, hentries, List.map_append, List.map_cons] at h
  refine List.disjoint_of_nodup_append h (List.mem_map_of_mem hother) ?_
  rw [he]
  exact List.mem_cons_self

-- A job that has a position has an entry, and so many others are ahead of it.
theorem exists_split (h : q.order.Nodup) (hposition : q.position? job = some i) :
    ∃ ahead x behind, q.entries = ahead ++ x :: behind ∧ x.job = job ∧ ahead.length + 1 = i := by
  have hin : job ∈ q.order := by
    by_contra hout
    rw [position?_eq_none_iff.mpr hout] at hposition
    cases hposition
  obtain ⟨x, hx, rfl⟩ := mem_order_iff.mp hin
  obtain ⟨ahead, behind, hentries⟩ := List.append_of_mem hx
  refine ⟨ahead, x, behind, hentries, rfl, ?_⟩
  exact Option.some_inj.mp ((position?_of_nodup h hentries).symm.trans hposition)

-- The positions of two jobs are as their entries are in the line.
theorem positions_lt_iff (h : q.order.Nodup) :
    (∃ i j, q.position? a = some i ∧ q.position? b = some j ∧ i < j) ↔
      ∃ x y, x.job = a ∧ y.job = b ∧ [x, y].Sublist q.entries := by
  constructor
  · rintro ⟨i, j, ha, hb, hlt⟩
    obtain ⟨ahead, x, behind, hentries, hx, rfl⟩ := exists_split h ha
    obtain ⟨ahead', y, behind', hentries', hy, rfl⟩ := exists_split h hb
    refine ⟨x, y, hx, hy, ?_⟩
    have hmem : x ∈ ahead' := by
      rcases List.append_eq_append_iff.mp (hentries.symm.trans hentries') with
        ⟨between, rfl, hrest⟩ | ⟨between, rfl, -⟩
      · cases between with
        | nil => simp at hlt
        | cons first between =>
          rw [List.cons_append, List.cons_eq_cons] at hrest
          rw [hrest.1]
          exact List.mem_append_right _ List.mem_cons_self
      · rw [List.length_append] at hlt
        omega
    rw [hentries']
    exact (List.singleton_sublist.mpr hmem).append
      (List.singleton_sublist.mpr List.mem_cons_self)
  · rintro ⟨x, y, rfl, rfl, hsub⟩
    obtain ⟨front, back, hentries, hx, hy⟩ := List.cons_sublist_iff.mp hsub
    obtain ⟨ahead, behind, rfl⟩ := List.append_of_mem hx
    obtain ⟨ahead', behind', rfl⟩ := List.append_of_mem (List.singleton_sublist.mp hy)
    refine ⟨ahead.length + 1, (ahead ++ x :: behind ++ ahead').length + 1, ?_, ?_, ?_⟩
    · exact position?_of_nodup h (by rw [hentries, List.append_assoc, List.cons_append])
    · have hsplit : q.entries = (ahead ++ x :: behind ++ ahead') ++ y :: behind' := by
        rw [hentries]
        simp
      exact position?_of_nodup h hsplit
    · simp only [List.length_append, List.length_cons]
      omega

theorem entries_sublist_joined (h : q.Ordered now) (job : JobId) (priority : Int) :
    q.entries.Sublist (q.joined job priority now).entries := by
  obtain ⟨ahead, behind, hentries, hplace, -, -⟩ := h.joined_split job priority
  rw [hentries, hplace]
  exact (List.Sublist.refl ahead).append (List.sublist_cons_self _ _)

-- A new entry moves those behind it by one place, and they are of a worse priority.
theorem position?_joined (h : q.Ordered now) {new : JobId} (hout : new ∉ q.order)
    (hroom : q.length < q.capacity) {priority : Int} (hi : q.position? job = some i)
    (hj : (q.joined new priority now).position? job = some j) :
    i = j ∨ (j = i + 1 ∧ ∃ x ∈ q.entries, x.job = job ∧ priority < x.priority) := by
  obtain ⟨front, back, hentries, hplace, -, hback⟩ := h.joined_split new priority
  obtain ⟨ahead, x, behind, hsplit, rfl, rfl⟩ := exists_split h.distinct hi
  have hnext := (h.joined hout hroom priority).distinct
  have hposition : ∀ ahead behind, front ++ ⟨new, priority, now, q.issued⟩ :: back =
      ahead ++ x :: behind → j = ahead.length + 1 := by
    intro ahead behind hwhole
    have hsame := position?_of_nodup hnext (hplace.trans hwhole)
    exact Option.some_inj.mp (hj.symm.trans hsame)
  have hmem : x ∈ q.entries := by
    rw [hsplit]
    exact List.mem_append_right _ List.mem_cons_self
  rcases List.append_eq_append_iff.mp (hentries.symm.trans hsplit) with
    ⟨between, rfl, rfl⟩ | ⟨between, rfl, hrest⟩
  · refine .inr ⟨?_, x, hmem, rfl, hback x (List.mem_append_right _ List.mem_cons_self)⟩
    rw [hposition (front ++ ⟨new, priority, now, q.issued⟩ :: between) behind (by simp)]
    simp only [List.length_append, List.length_cons]
    omega
  · cases between with
    | nil =>
      rw [List.nil_append] at hrest
      refine .inr ⟨?_, x, hmem, rfl, hback x (hrest ▸ List.mem_cons_self)⟩
      rw [hposition (ahead ++ [⟨new, priority, now, q.issued⟩]) behind (by simp [← hrest])]
      simp
    | cons first between =>
      rw [List.cons_append, List.cons_eq_cons] at hrest
      obtain ⟨rfl, rfl⟩ := hrest
      exact .inl (hposition ahead (between ++ ⟨new, priority, now, q.issued⟩ :: back)
        (by simp)).symm

-- Where one job leaves the queue, the others move up by one place at most.
theorem position?_without (h : q.order.Nodup) (gone : JobId) (hi : q.position? job = some i)
    (hj : (q.without gone).position? job = some j) : j ≤ i ∧ i ≤ j + 1 := by
  obtain ⟨ahead, x, behind, hsplit, rfl, rfl⟩ := exists_split h hi
  have hnext : (q.without gone).order.Nodup := h.sublist (List.filter_sublist.map _)
  have hkept : x.job ≠ gone := by
    rintro rfl
    have hout : x.job ∉ (q.without x.job).order := by simp
    rw [position?_eq_none_iff.mpr hout] at hj
    cases hj
  have hentries : (q.without gone).entries =
      ahead.filter (fun entry => entry.job != gone) ++
        x :: behind.filter (fun entry => entry.job != gone) := by
    rw [without, hsplit, List.filter_append, List.filter_cons_of_pos (by simpa using hkept)]
  have hposition : j = (ahead.filter (fun entry => entry.job != gone)).length + 1 :=
    Option.some_inj.mp (hj.symm.trans (position?_of_nodup hnext hentries))
  have hle := List.length_filter_le (fun entry : Entry => entry.job != gone) ahead
  have hahead : (ahead.map Entry.job).Nodup := by
    rw [order, hsplit, List.map_append] at h
    exact h.of_append_left
  have hge : ahead.length ≤ (ahead.filter (fun entry => entry.job != gone)).length + 1 := by
    by_cases hin : ∃ entry ∈ ahead, entry.job = gone
    · obtain ⟨entry, hentry, rfl⟩ := hin
      exact Nat.le_of_eq (Keyed.length_filter_ne hahead hentry).symm
    · have hall : ahead.filter (fun entry => entry.job != gone) = ahead := by
        rw [List.filter_eq_self]
        intro entry hentry
        simpa using fun he => hin ⟨entry, hentry, he⟩
      rw [hall]
      exact Nat.le_succ _
  omega

end Queue

namespace Desk

variable {α β : Type} {d : Discipline α} {e : Discipline β} {desk : Desk α} {other : Desk β}
  {a b job : JobId} {errands : List Errand}

-- Both jobs are in the queue, and one is nearer to its turn than the other.
def Ahead (d : Discipline α) (desk : Desk α) (a b : JobId) : Prop :=
  ∃ i j, d.position? desk.queue a = some i ∧ d.position? desk.queue b = some j ∧ i < j

-- A job is in the queue and stays there through all these errands.
def StaysQueued (d : Discipline α) (desk : Desk α) (errands : List Errand) (job : JobId) : Prop :=
  ∀ done, done <+: errands → job ∈ d.order (desk.run d done).2.queue

-- No two jobs change their turns as long as both are in the queue. A job that is served before
-- one ahead of it is so because that one has a slot. Positions change by one place at a time, and
-- they get worse only for the sake of a new job with a better priority.
structure KeepsTurns (d : Discipline α) (entries : α → List Entry) (desk : Desk α) : Prop where
  order : ∀ errands a b, desk.StaysQueued d errands a → desk.StaysQueued d errands b →
    (desk.Ahead d a b ↔ (desk.run d errands).2.Ahead d a b)
  overtaken : ∀ errands a b, desk.StaysQueued d errands a → desk.StaysQueued d errands b →
    desk.Ahead d a b → ((desk.run d errands).2.serve d .dequeue).1 = .served (some b) →
    a ∈ (desk.run d errands).2.gate.holders
  near : ∀ errand job i j, d.position? desk.queue job = some i →
    d.position? (desk.serve d errand).2.queue job = some j → i ≤ j + 1 ∧ j ≤ i + 1
  worse : ∀ errand job i j, d.position? desk.queue job = some i →
    d.position? (desk.serve d errand).2.queue job = some j → i < j →
    ∃ new priority, errand = .enqueue new priority ∧ new ∉ d.order desk.queue ∧
      new ∈ d.order (desk.serve d errand).2.queue ∧
      ∃ entry ∈ entries desk.queue, entry.job = job ∧ priority < entry.priority

theorem StaysQueued.now (h : desk.StaysQueued d errands job) : job ∈ d.order desk.queue :=
  h [] (List.nil_prefix)

theorem StaysQueued.next {errand : Errand} (h : desk.StaysQueued d (errand :: errands) job) :
    (desk.serve d errand).2.StaysQueued d errands job := fun done hdone =>
  h (errand :: done) (List.cons_prefix_cons.mpr ⟨rfl, hdone⟩)

section Listed

variable {desk : Desk Queue}

theorem ahead_iff (h : desk.queue.Neat desk.now) : desk.Ahead Queue.discipline a b ↔
    ∃ x y, x.job = a ∧ y.job = b ∧ [x, y].Sublist desk.queue.entries :=
  Queue.positions_lt_iff h.ordered.distinct

theorem sublist_without {x y : Entry} {gone : JobId} (h : [x, y].Sublist desk.queue.entries)
    (hx : x.job ≠ gone) (hy : y.job ≠ gone) :
    [x, y].Sublist (desk.queue.without gone).entries := by
  have hkept := h.filter (fun entry => entry.job != gone)
  rwa [List.filter_cons_of_pos (by simpa using hx), List.filter_cons_of_pos (by simpa using hy),
    List.filter_nil] at hkept

-- Whatever is done, two jobs that are both in the queue afterwards are as they were.
theorem ahead_serve (h : desk.queue.Neat desk.now) (errand : Errand)
    (ha : a ∈ (desk.serve Queue.discipline errand).2.queue.order)
    (hb : b ∈ (desk.serve Queue.discipline errand).2.queue.order)
    (hahead : desk.Ahead Queue.discipline a b) :
    (desk.serve Queue.discipline errand).2.Ahead Queue.discipline a b := by
  rw [ahead_iff (neat_serve h errand)]
  obtain ⟨x, y, rfl, rfl, hsub⟩ := (ahead_iff h).mp hahead
  refine ⟨x, y, rfl, rfl, ?_⟩
  have hleft : ∀ gone, (desk.serve Queue.discipline errand).2.queue = desk.queue.without gone →
      [x, y].Sublist (desk.serve Queue.discipline errand).2.queue.entries := by
    intro gone hgone
    rw [hgone, Queue.mem_order_without] at ha hb
    rw [hgone]
    exact sublist_without hsub ha.2 hb.2
  rcases (serve_cases desk errand).2 with hsame | ⟨new, priority, -, -, -, hjoined⟩ |
    ⟨-, gone, -, hdequeue⟩ | ⟨gone, -, -, herased⟩
  · rw [hsame]
    exact hsub
  · rw [hjoined]
    exact hsub.trans (Queue.entries_sublist_joined h.ordered new priority)
  · exact hleft gone (Queue.dequeue?_eq_some hdequeue).2.2
  · exact hleft gone herased

theorem ahead_run (h : desk.queue.Neat desk.now)
    (ha : desk.StaysQueued Queue.discipline errands a)
    (hb : desk.StaysQueued Queue.discipline errands b)
    (hahead : desk.Ahead Queue.discipline a b) :
    (desk.run Queue.discipline errands).2.Ahead Queue.discipline a b := by
  induction errands generalizing desk with
  | nil => exact hahead
  | cons errand errands ih =>
    have hnext := ahead_serve h errand ha.next.now hb.next.now hahead
    exact ih (neat_serve h errand) ha.next hb.next hnext

-- Of two jobs in the queue one is ahead of the other.
theorem ahead_total (ha : a ∈ desk.queue.order) (hb : b ∈ desk.queue.order) (hne : a ≠ b)
    (h : desk.queue.Neat desk.now) :
    desk.Ahead Queue.discipline a b ∨ desk.Ahead Queue.discipline b a := by
  obtain ⟨x, hx, rfl⟩ := Queue.mem_order_iff.mp ha
  obtain ⟨y, hy, rfl⟩ := Queue.mem_order_iff.mp hb
  obtain ⟨ahead, behind, hentries⟩ := List.append_of_mem hx
  rw [hentries, List.mem_append, List.mem_cons] at hy
  rw [ahead_iff h, ahead_iff h, hentries]
  rcases hy with hy | rfl | hy
  · exact .inr ⟨y, x, rfl, rfl, (List.singleton_sublist.mpr hy).append
      (List.singleton_sublist.mpr List.mem_cons_self)⟩
  · exact absurd rfl hne
  · exact .inl ⟨x, y, rfl, rfl, (List.cons_sublist_cons.mpr
      (List.singleton_sublist.mpr hy)).trans (List.sublist_append_right _ _)⟩

theorem Ahead.asymm (hab : desk.Ahead Queue.discipline a b) :
    ¬ desk.Ahead Queue.discipline b a := by
  rintro ⟨j, i, hb, ha, hlt⟩
  obtain ⟨i', j', ha', hb', hlt'⟩ := hab
  obtain rfl := Option.some_inj.mp (ha.symm.trans ha')
  obtain rfl := Option.some_inj.mp (hb.symm.trans hb')
  exact absurd hlt (Nat.lt_asymm hlt')

theorem Ahead.ne (hab : desk.Ahead Queue.discipline a b) : a ≠ b := by
  rintro rfl
  exact hab.asymm hab

-- Only a job with a slot is passed over.
theorem holds_of_served (h : desk.queue.Neat desk.now) (hahead : desk.Ahead Queue.discipline a b)
    (hserved : (desk.serve Queue.discipline .dequeue).1 = .served (some b)) :
    a ∈ desk.gate.holders := by
  rcases servesIfPossible_of_neat h with ⟨-, job, hreply, hserves⟩ | ⟨-, hreply, -⟩
  · obtain ⟨rfl⟩ : b = job := by
      rw [hserved] at hreply
      exact Option.some_inj.mp (Reply.served.inj hreply)
    obtain ⟨entry, hentry, hjob, hfirst⟩ := hserves.first
    obtain ⟨x, y, rfl, rfl, hsub⟩ := (ahead_iff h).mp hahead
    have hx : x ∈ desk.queue.entries := hsub.subset List.mem_cons_self
    have hprecedes : x.precedes y = true :=
      List.rel_of_pairwise_cons (h.lined.sublist hsub) List.mem_cons_self
    have hy : y ∈ desk.queue.entries := hsub.subset (List.mem_cons_of_mem _ List.mem_cons_self)
    obtain rfl : entry = y := List.inj_on_of_nodup_map h.ordered.distinct hentry hy hjob
    by_contra hfree
    have hne : x ≠ entry := by
      rintro rfl
      exact hahead.ne rfl
    have hback := hfirst x hx hfree hne
    have hforth := h.before hx hentry hprecedes
    simp only [Entry.Before] at hback hforth
    omega
  · rw [hserved] at hreply
    cases hreply

-- The position of a job that stays in the queue, before and after an errand.
theorem position?_serve {i j : Nat} (h : desk.queue.Neat desk.now) (errand : Errand)
    (hi : desk.queue.position? job = some i)
    (hj : (desk.serve Queue.discipline errand).2.queue.position? job = some j) :
    (j ≤ i ∧ i ≤ j + 1) ∨ (j = i + 1 ∧
      ∃ new priority, errand = .enqueue new priority ∧ new ∉ desk.queue.order ∧
        new ∈ (desk.serve Queue.discipline errand).2.queue.order ∧
        ∃ entry ∈ desk.queue.entries, entry.job = job ∧ priority < entry.priority) := by
  rcases (serve_cases desk errand).2 with hsame | ⟨new, priority, rfl, hout, hroom, hjoined⟩ |
    ⟨-, gone, -, hdequeue⟩ | ⟨gone, -, -, herased⟩
  · rw [hsame] at hj
    obtain rfl := Option.some_inj.mp (hi.symm.trans hj)
    exact .inl ⟨Nat.le_refl _, Nat.le_succ _⟩
  · rw [hjoined] at hj ⊢
    rcases Queue.position?_joined h.ordered hout hroom hi hj with rfl | ⟨rfl, hworse⟩
    · exact .inl ⟨Nat.le_refl _, Nat.le_succ _⟩
    · exact .inr ⟨rfl, new, priority, rfl, hout, Queue.mem_order_joined.mpr (.inl rfl), hworse⟩
  · rw [(Queue.dequeue?_eq_some hdequeue).2.2] at hj
    exact .inl (Queue.position?_without h.ordered.distinct gone hi hj)
  · rw [herased] at hj
    exact .inl (Queue.position?_without h.ordered.distinct gone hi hj)

theorem keepsTurns_of_neat (h : desk.queue.Neat desk.now) :
    desk.KeepsTurns Queue.discipline Queue.entries where
  order := by
    intro errands a b ha hb
    refine ⟨ahead_run h ha hb, fun hafter => ?_⟩
    rcases ahead_total ha.now hb.now hafter.ne h with hab | hba
    · exact hab
    · exact absurd (ahead_run h hb ha hba) hafter.asymm
  overtaken := fun errands a b ha hb hahead hserved =>
    holds_of_served (neat_run h errands) (ahead_run h ha hb hahead) hserved
  near := by
    intro errand job i j hi hj
    rcases position?_serve h errand hi hj with hmoved | ⟨rfl, -⟩
    · omega
    · omega
  worse := by
    intro errand job i j hi hj hlt
    rcases position?_serve h errand hi hj with hmoved | ⟨-, hworse⟩
    · omega
    · exact hworse

end Listed

theorem Ahead.of_shows (hshows : desk.Shows d e other) :
    desk.Ahead d a b ↔ other.Ahead e a b := by
  simp only [Ahead, hshows.position]

section Kept

variable {desk : Desk IndexedQueue} {other : Desk Queue}

theorem shows_run (halike : Discipline.Alike IndexedQueue.Indexes desk other)
    (errands : List Errand) :
    (desk.run IndexedQueue.discipline errands).2.Shows IndexedQueue.discipline Queue.discipline
      (other.run Queue.discipline errands).2 :=
  IndexedQueue.simulates_queue.shows (IndexedQueue.simulates_queue.run halike errands).2

theorem StaysQueued.of_alike (halike : Discipline.Alike IndexedQueue.Indexes desk other)
    (h : desk.StaysQueued IndexedQueue.discipline errands job) :
    other.StaysQueued Queue.discipline errands job := fun done hdone => by
  rw [← (shows_run halike done).order]
  exact h done hdone

-- A queue that is kept with an index keeps turns as the list does that it stands for.
theorem keepsTurns_of_alike (halike : Discipline.Alike IndexedQueue.Indexes desk other)
    (h : other.KeepsTurns Queue.discipline Queue.entries) :
    desk.KeepsTurns IndexedQueue.discipline IndexedQueue.heap := by
  have hshows := IndexedQueue.simulates_queue.shows halike
  have hserve := fun errand =>
    IndexedQueue.simulates_queue.shows (IndexedQueue.simulates_queue.serve halike errand).2
  refine ⟨?_, ?_, ?_, ?_⟩
  · intro errands a b ha hb
    rw [Ahead.of_shows hshows, Ahead.of_shows (shows_run halike errands)]
    exact h.order errands a b (ha.of_alike halike) (hb.of_alike halike)
  · intro errands a b ha hb hahead hserved
    obtain ⟨-, hlater⟩ := IndexedQueue.simulates_queue.run halike errands
    rw [(IndexedQueue.simulates_queue.serve hlater .dequeue).1] at hserved
    rw [hlater.gate]
    exact h.overtaken errands a b (ha.of_alike halike) (hb.of_alike halike)
      ((Ahead.of_shows hshows).mp hahead) hserved
  · intro errand job i j hi hj
    rw [hshows.position] at hi
    rw [(hserve errand).position] at hj
    exact h.near errand job i j hi hj
  · intro errand job i j hi hj hlt
    rw [hshows.position] at hi
    rw [(hserve errand).position] at hj
    obtain ⟨new, priority, herrand, hout, hin, entry, hentry, hworse⟩ :=
      h.worse errand job i j hi hj hlt
    refine ⟨new, priority, herrand, ?_, ?_, entry, halike.queue.heap.symm.subset hentry, hworse⟩
    · rw [hshows.order]
      exact hout
    · rw [(hserve errand).order]
      exact hin

end Kept

-- In whatever state a queue comes to be by errands, to it and at its gate, and whether it is kept
-- as a heap with an index or as a list of entries: from there on jobs keep their turns.
theorem keepsTurns_of_run (capacity now : Nat) (gate : Gate) (errands : List Errand) :
    (Desk.run IndexedQueue.discipline ⟨.ofCapacity capacity, gate, now⟩ errands).2.KeepsTurns
        IndexedQueue.discipline IndexedQueue.heap ∧
      (Desk.run Queue.discipline ⟨.ofCapacity capacity, gate, now⟩ errands).2.KeepsTurns
        Queue.discipline Queue.entries := by
  have hneat : (Queue.ofCapacity capacity : Queue).Neat now := Queue.neat_ofCapacity capacity now
  have hlisted : (Desk.run Queue.discipline ⟨.ofCapacity capacity, gate, now⟩ errands).2.KeepsTurns
      Queue.discipline Queue.entries := keepsTurns_of_neat (neat_run hneat errands)
  obtain ⟨-, halike⟩ := IndexedQueue.simulates_queue.run
    (.init gate (IndexedQueue.indexes_ofCapacity capacity now)) errands
  exact ⟨keepsTurns_of_alike halike hlisted, hlisted⟩

end Desk

end Foreman
