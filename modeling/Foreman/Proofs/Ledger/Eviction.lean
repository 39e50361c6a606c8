import Foreman.Engine.State
import Foreman.Ledger.Eviction
import Foreman.Proofs.Ledger.Frozen
import Foreman.Proofs.Registry

namespace Foreman

-- A job that is over, and has been for longer than `ttl`.
def Job.Outdated (ttl now : Nat) (job : Job) : Prop :=
  job.status.isTerminal = true ∧ ∃ done, job.times.completed = some done ∧ done + ttl < now

namespace Ledger

-- A job that leaves, and the ledger that it has left behind.
structure Departure where
  job : JobId
  left : Ledger

variable {World : Type} {l l' : Ledger} {id : JobId} {job : Job} {ttl now later cutoff : Nat}
  {listeners : List (Listener World)} {found : List JobId} {departures : List Departure}

-- The listeners one after another hear of each departure, in the order in which the jobs leave.
def announce (listeners : List (Listener World)) (departures : List Departure) (w : World) :
    World :=
  departures.foldl (fun w departure => departure.left.notify listeners departure.job w) w

-- What has left a ledger is what was outdated, each job once, and nothing else has changed.
structure Clears (l : Ledger) (ttl now : Nat) (departures : List Departure) (l' : Ledger) :
    Prop where
  once : (departures.map Departure.job).Nodup
  exactly : ∀ id, id ∈ departures.map Departure.job ↔
    ∃ job, l.get? id = some job ∧ job.Outdated ttl now
  absent : ∀ departure ∈ departures, departure.left.get? departure.job = none
  gone : ∀ id job, l.get? id = some job → job.Outdated ttl now → l'.get? id = none
  others : ∀ id, (∀ job, l.get? id = some job → ¬ job.Outdated ttl now) → l'.get? id = l.get? id

-- The cutoff stops at zero, where no time is before it, just as none is with `ttl` added.
theorem isExpired_iff : isExpired (now - ttl) job = true ↔ job.Outdated ttl now := by
  simp only [isExpired, Bool.and_eq_true, Job.Outdated, Option.any_eq_true, decide_eq_true_eq]
  refine and_congr_right fun _ => exists_congr fun done => and_congr_right fun _ => ?_
  omega

theorem mem_evict_iff (h : l.Distinct) :
    id ∈ (l.evict ttl now).1 ↔ ∃ job, l.get? id = some job ∧ job.Outdated ttl now := by
  simp only [evict, List.mem_map, List.mem_filter]
  constructor
  · rintro ⟨job, ⟨hjob, hexpired⟩, rfl⟩
    exact ⟨job, get?_of_mem h hjob, isExpired_iff.mp hexpired⟩
  · rintro ⟨job, hjob, houtdated⟩
    obtain ⟨hmem, hid⟩ := get?_mem hjob
    exact ⟨job, ⟨hmem, isExpired_iff.mpr houtdated⟩, hid⟩

theorem nodup_evict (h : l.Distinct) (ttl now : Nat) : (l.evict ttl now).1.Nodup :=
  h.sublist (List.filter_sublist.map _)

-- The ledger without some of its jobs.
def without (l : Ledger) (ids : List JobId) : Ledger :=
  ⟨l.jobs.filter (fun job => decide (job.id ∉ ids))⟩

theorem without_nil (l : Ledger) : l.without [] = l := by
  simp [without]

theorem without_append (l : Ledger) (first second : List JobId) :
    l.without (first ++ second) = (l.without first).without second := by
  simp only [without, List.filter_filter, List.mem_append, not_or, Bool.decide_and]
  congr 2
  funext job
  exact Bool.and_comm _ _

theorem without_congr {ids ids' : List JobId} (h : ∀ id, id ∈ ids ↔ id ∈ ids') (l : Ledger) :
    l.without ids = l.without ids' := by
  simp only [without, h]

theorem get?_without (l : Ledger) (ids : List JobId) (id : JobId) :
    (l.without ids).get? id = if id ∈ ids then none else l.get? id := by
  split
  · rename_i hmem
    rw [without, get?, List.find?_eq_none]
    intro job hjob hid
    obtain rfl : job.id = id := by simpa using hid
    have hnot := (List.mem_filter.mp hjob).2
    simp [hmem] at hnot
  · rename_i hnot
    refine get?_filter _ fun job _ hid => ?_
    simpa [hid] using hnot

theorem evict_eq_without (h : l.Distinct) :
    (l.evict ttl now).2 = l.without (l.evict ttl now).1 := by
  refine congrArg Ledger.mk (List.filter_congr fun job hjob => ?_)
  have hiff : job.id ∈ (l.evict ttl now).1 ↔ isExpired (now - ttl) job = true := by
    rw [mem_evict_iff h, isExpired_iff]
    constructor
    · rintro ⟨found, hfound, houtdated⟩
      obtain rfl := Option.some_inj.mp ((get?_of_mem h hjob).symm.trans hfound)
      exact houtdated
    · exact fun houtdated => ⟨job, get?_of_mem h hjob, houtdated⟩
  simp only [decide_not, hiff, Bool.decide_eq_true]

-- What is looked at again is still there and still as the scan had it.
theorem removeIf_eq_some {p : Job → Bool} (hjob : l.get? id = some job) (hp : p job = true) :
    l.removeIf id p = some (l.without [id]) := by
  simp only [removeIf, hjob, hp, if_true, without, List.mem_singleton]
  congr 3
  funext other
  rw [decide_not, bne, beq_eq_decide]

-- The jobs found leave in the order of the scan.
def departuresOf (l : Ledger) : List JobId → List Departure
  | [] => []
  | id :: rest => ⟨id, l.without [id]⟩ :: (l.without [id]).departuresOf rest

theorem map_job_departuresOf (l : Ledger) (found : List JobId) :
    (l.departuresOf found).map Departure.job = found := by
  induction found generalizing l with
  | nil => rfl
  | cons id rest ih => simp only [departuresOf, List.map_cons, ih]

theorem absent_of_mem_departuresOf (l : Ledger) (found : List JobId) :
    ∀ departure ∈ l.departuresOf found, departure.left.get? departure.job = none := by
  induction found generalizing l with
  | nil => exact fun _ h => absurd h List.not_mem_nil
  | cons id rest ih =>
    intro departure hdeparture
    rcases List.mem_cons.mp hdeparture with rfl | hlater
    · simp [get?_without]
    · exact ih _ departure hlater

-- The loop, from any point that it can have come to.
theorem foldl_evictOne (hnodup : found.Nodup)
    (hfound : ∀ id ∈ found, ∃ job, l.get? id = some job ∧ isExpired cutoff job = true)
    (count : Nat) (w : World) :
    found.foldl (evictOne cutoff listeners) ⟨count, l, w⟩ =
      ⟨count + found.length, l.without found, announce listeners (l.departuresOf found) w⟩ := by
  induction found generalizing l count w with
  | nil => simp [without_nil, departuresOf, announce]
  | cons id rest ih =>
    obtain ⟨hid, hrest⟩ := List.nodup_cons.mp hnodup
    obtain ⟨job, hjob, hexpired⟩ := hfound id List.mem_cons_self
    -- The others are not concerned by the removal of this one.
    have hleft : ∀ other ∈ rest,
        ∃ job, (l.without [id]).get? other = some job ∧ isExpired cutoff job = true := by
      intro other hother
      have hne : other ∉ [id] := fun hmem => hid (List.mem_singleton.mp hmem ▸ hother)
      rw [get?_without, if_neg hne]
      exact hfound other (List.mem_cons_of_mem _ hother)
    have hstep : evictOne cutoff listeners ⟨count, l, w⟩ id =
        ⟨count + 1, l.without [id], (l.without [id]).notify listeners id w⟩ := by
      simp only [evictOne, removeIf_eq_some hjob hexpired]
    rw [List.foldl_cons, hstep, ih hrest hleft, ← without_append]
    simp only [List.length_cons, departuresOf, announce, List.foldl_cons, Eviction.mk.injEq,
      List.singleton_append, and_true]
    omega

theorem evictEach_eq (h : l.Distinct) (hfound : found.Perm (l.evict ttl now).1) (w : World) :
    l.evictEach (now - ttl) listeners found w =
      ⟨found.length, (l.evict ttl now).2, announce listeners (l.departuresOf found) w⟩ := by
  have hexpired : ∀ id ∈ found,
      ∃ job, l.get? id = some job ∧ isExpired (now - ttl) job = true := by
    intro id hid
    obtain ⟨job, hjob, houtdated⟩ := (mem_evict_iff h).mp (hfound.mem_iff.mp hid)
    exact ⟨job, hjob, isExpired_iff.mpr houtdated⟩
  have hnodup : found.Nodup := hfound.nodup_iff.mpr (nodup_evict h ttl now)
  rw [evictEach, foldl_evictOne hnodup hexpired, Nat.zero_add, evict_eq_without h,
    without_congr (fun _ => hfound.mem_iff)]

theorem clears_evict (h : l.Distinct) (hfound : found.Perm (l.evict ttl now).1) :
    l.Clears ttl now (l.departuresOf found) (l.evict ttl now).2 where
  once := by
    rw [map_job_departuresOf]
    exact hfound.nodup_iff.mpr (nodup_evict h ttl now)
  exactly := by
    intro id
    rw [map_job_departuresOf, hfound.mem_iff]
    exact mem_evict_iff h
  absent := absent_of_mem_departuresOf l found
  gone := by
    intro id job hjob houtdated
    rw [evict_eq_without h, get?_without, if_pos ((mem_evict_iff h).mpr ⟨job, hjob, houtdated⟩)]
  others := by
    intro id hnot
    rw [evict_eq_without h, get?_without, if_neg]
    intro hmem
    obtain ⟨job, hjob, houtdated⟩ := (mem_evict_iff h).mp hmem
    exact hnot job hjob houtdated

-- Two evictions take what the later one takes alone.

theorem isExpired_mono {cutoff' : Nat} (hle : cutoff ≤ cutoff')
    (hexpired : isExpired cutoff job = true) : isExpired cutoff' job = true := by
  simp only [isExpired, Bool.and_eq_true, Option.any_eq_true, decide_eq_true_eq] at hexpired ⊢
  obtain ⟨hover, done, hdone, hlt⟩ := hexpired
  exact ⟨hover, done, hdone, hlt.trans_le hle⟩

theorem evict_evict (hlater : now ≤ later) (l : Ledger) (ttl : Nat) :
    ((l.evict ttl now).2.evict ttl later).2 = (l.evict ttl later).2 := by
  simp only [evict, List.filter_filter, Ledger.mk.injEq]
  refine List.filter_congr fun job _ => ?_
  cases hexpired : isExpired (now - ttl) job with
  | false => simp
  | true => simp [isExpired_mono (Nat.sub_le_sub_right hlater ttl) hexpired]

theorem evict_evict_perm (hlater : now ≤ later) (l : Ledger) (ttl : Nat) :
    ((l.evict ttl now).1 ++ ((l.evict ttl now).2.evict ttl later).1).Perm
      (l.evict ttl later).1 := by
  have hfirst : l.jobs.filter (isExpired (now - ttl)) =
      (l.jobs.filter (isExpired (later - ttl))).filter (isExpired (now - ttl)) := by
    rw [List.filter_filter]
    refine List.filter_congr fun job _ => ?_
    cases hexpired : isExpired (now - ttl) job with
    | false => simp
    | true => simp [isExpired_mono (Nat.sub_le_sub_right hlater ttl) hexpired]
  have hsecond : (l.jobs.filter (fun job => !isExpired (now - ttl) job)).filter
      (isExpired (later - ttl)) = (l.jobs.filter (isExpired (later - ttl))).filter
        (fun job => !isExpired (now - ttl) job) := by
    simp only [List.filter_filter, Bool.and_comm]
  simp only [evict]
  rw [← List.map_append, hfirst, hsecond]
  exact (List.filter_append_perm _ _).map Job.id

end Ledger

namespace Registry

variable {World : Type} {r : Registry} {p : Path} {view : World → Registry}
  {listeners : List (Listener World)}

theorem claims_dropAll (r : Registry) (jobs : List JobId) :
    (r.dropAll jobs).claims = r.claims.filter (fun claim => decide (claim.1 ∉ jobs)) := by
  induction jobs generalizing r with
  | nil => simp [dropAll]
  | cons job rest ih =>
    simp only [dropAll, List.foldl_cons] at ih ⊢
    rw [ih, drop, List.filter_filter]
    refine List.filter_congr fun claim _ => ?_
    simp only [List.mem_cons, not_or, Bool.decide_and, decide_not, bne, beq_eq_decide]
    exact Bool.and_comm _ _

theorem home_dropAll (r : Registry) (jobs : List JobId) : (r.dropAll jobs).home = r.home :=
  (extends_dropAll r jobs).home

theorem dropAll_congr {jobs jobs' : List JobId} (h : ∀ job, job ∈ jobs ↔ job ∈ jobs')
    (r : Registry) : r.dropAll jobs = r.dropAll jobs' := by
  have hclaims : (r.dropAll jobs).claims = (r.dropAll jobs').claims := by
    simp only [claims_dropAll, h]
  have hhome : (r.dropAll jobs).home = (r.dropAll jobs').home := by
    rw [home_dropAll, home_dropAll]
  cases hdrop : r.dropAll jobs
  cases hdrop' : r.dropAll jobs'
  simp_all

theorem dropAll_append (r : Registry) (first second : List JobId) :
    r.dropAll (first ++ second) = (r.dropAll first).dropAll second :=
  List.foldl_append ..

theorem drop_drop (r : Registry) (job : JobId) : (r.drop job).drop job = r.drop job := by
  simp only [drop, List.filter_filter, Bool.and_self]

-- How a listener touches the registry that is seen in a world.
def Releases (view : World → Registry) (listener : Listener World) : Prop :=
  ∀ l id w, view (listener l id w) = releasing l id (view w)

def Ignores (view : World → Registry) (listener : Listener World) : Prop :=
  ∀ l id w, view (listener l id w) = view w

-- The registry is among the listeners, and the others leave it alone.
structure Subscribed (view : World → Registry) (listeners : List (Listener World)) : Prop where
  told : ∃ listener ∈ listeners, Releases view listener
  alone : ∀ listener ∈ listeners, Releases view listener ∨ Ignores view listener

-- Once the entry of a job is gone, to be told of the job again changes nothing. So either it is
-- gone already, or the one who lets go of it is still to come.
theorem view_foldl (l : Ledger) (id : JobId)
    (halone : ∀ listener ∈ listeners, Releases view listener ∨ Ignores view listener)
    {w : World} (hr : (view w).drop id = r)
    (htold : (∃ listener ∈ listeners, Releases view listener) ∨ view w = r) :
    view (listeners.foldl (fun w listener => listener l id w) w) = r := by
  induction listeners generalizing w with
  | nil =>
    rcases htold with ⟨listener, hlistener, -⟩ | hdone
    · exact absurd hlistener List.not_mem_nil
    · exact hdone
  | cons listener rest ih =>
    have hrest := fun other hother => halone other (List.mem_cons_of_mem listener hother)
    rcases halone listener List.mem_cons_self with hreleases | hignores
    · have hdone : view (listener l id w) = r := (hreleases l id w).trans hr
      refine ih hrest ?_ (.inr hdone)
      rw [hdone, ← hr, drop_drop]
    · have hsame := hignores l id w
      refine ih hrest (hsame ▸ hr) ?_
      rcases htold with ⟨other, hother, hreleases⟩ | hdone
      · rcases List.mem_cons.mp hother with rfl | hlater
        · exact .inr ((hreleases l id w).trans hr)
        · exact .inl ⟨other, hlater, hreleases⟩
      · exact .inr (hsame.trans hdone)

theorem Subscribed.view_notify (hsub : Subscribed view listeners) (l : Ledger) (id : JobId)
    (w : World) : view (l.notify listeners id w) = (view w).drop id :=
  view_foldl l id hsub.alone rfl (.inl hsub.told)

theorem Subscribed.view_announce (hsub : Subscribed view listeners)
    (departures : List Ledger.Departure) (w : World) :
    view (Ledger.announce listeners departures w) =
      (view w).dropAll (departures.map Ledger.Departure.job) := by
  induction departures generalizing w with
  | nil => rfl
  | cons departure rest ih =>
    simp only [Ledger.announce, List.foldl_cons] at ih ⊢
    rw [ih, hsub.view_notify]
    rfl

-- What stays in a registry is what other jobs have in it.
theorem isClaimed_dropAll (r : Registry) (jobs : List JobId) (p : Path) :
    (r.dropAll jobs).isClaimed p = true ↔
      ∃ claim ∈ r.claims, claim.1 ∉ jobs ∧ ∃ q ∈ claim.2, r.isSame p q = true := by
  have hsame : (r.dropAll jobs).isSame p = r.isSame p := by
    funext q
    simp only [isSame, home_dropAll]
  simp only [isClaimed, claims_dropAll, hsame, List.any_eq_true, List.mem_filter,
    decide_eq_true_eq, and_assoc]

-- Some jobs have been let go of, with all that they held and nothing else.
structure LetsGo (r : Registry) (gone : List JobId) (r' : Registry) : Prop where
  home : r'.home = r.home
  claims : r'.claims = r.claims.filter (fun claim => decide (claim.1 ∉ gone))
  claimed : ∀ p, r'.isClaimed p = true ↔
    ∃ claim ∈ r.claims, claim.1 ∉ gone ∧ ∃ q ∈ claim.2, r.isSame p q = true

theorem letsGo_dropAll (r : Registry) (gone : List JobId) : r.LetsGo gone (r.dropAll gone) :=
  ⟨home_dropAll r gone, claims_dropAll r gone, isClaimed_dropAll r gone⟩

end Registry

-- Two evictions in a row come to what a single one comes to.
structure Eviction.Compose {World : Type} (listeners : List (Listener World))
    (first second single : Eviction World) : Prop where
  ledger : second.ledger = single.ledger
  count : first.count + second.count = single.count
  registry : ∀ view, Registry.Subscribed view listeners → view second.world = view single.world

open Ledger in
theorem compose_evictEach {World : Type} {l : Ledger} (h : l.Distinct) {ttl now later : Nat}
    (hlater : now ≤ later) {found foundNext foundAll : List JobId}
    (hfound : found.Perm (l.evict ttl now).1)
    (hnext : foundNext.Perm ((l.evict ttl now).2.evict ttl later).1)
    (hall : foundAll.Perm (l.evict ttl later).1) (listeners : List (Listener World)) (w : World) :
    let first := l.evictEach (now - ttl) listeners found w
    Eviction.Compose listeners first
      (first.ledger.evictEach (later - ttl) listeners foundNext first.world)
      (l.evictEach (later - ttl) listeners foundAll w) := by
  have hdistinct : (l.evict ttl now).2.Distinct := (evict_sheds h ttl now).distinct
  have hperm : (found ++ foundNext).Perm foundAll :=
    ((hfound.append hnext).trans (evict_evict_perm hlater l ttl)).trans hall.symm
  simp only [evictEach_eq h hfound, evictEach_eq hdistinct hnext, evictEach_eq h hall]
  refine ⟨evict_evict hlater l ttl, ?_, fun view hsub => ?_⟩
  · rw [← List.length_append, hperm.length_eq]
  · simp only [hsub.view_announce, map_job_departuresOf, ← Registry.dropAll_append]
    exact Registry.dropAll_congr (fun _ => hperm.mem_iff) _

-- In what order a scan comes upon the jobs, who listens and what they make of it is left open, so
-- this is about any of them.
theorem evictEach_clears_and_composes {l : Ledger} {deeds : List Deed} {ttl now : Nat}
    {found : List JobId} (hreached : Ledger.empty.after deeds = l)
    (hfound : found.Perm (l.evict ttl now).1) :
    ∃ departures, l.Clears ttl now departures (l.evict ttl now).2 ∧
      ∀ {World : Type} (listeners : List (Listener World)) (w : World),
        l.evictEach (now - ttl) listeners found w = ⟨departures.length, (l.evict ttl now).2,
          Ledger.announce listeners departures w⟩ ∧
        (∀ view, Registry.Subscribed view listeners →
          (view w).LetsGo (departures.map Ledger.Departure.job)
            (view (l.evictEach (now - ttl) listeners found w).world)) ∧
        ∀ later, now ≤ later → ∀ foundNext foundAll : List JobId,
          foundNext.Perm ((l.evict ttl now).2.evict ttl later).1 →
          foundAll.Perm (l.evict ttl later).1 →
          let first := l.evictEach (now - ttl) listeners found w
          Eviction.Compose listeners first
            (first.ledger.evictEach (later - ttl) listeners foundNext first.world)
            (l.evictEach (later - ttl) listeners foundAll w) := by
  have h : l.Distinct := hreached ▸ Ledger.distinct_after Ledger.distinct_empty deeds
  have hlength : (l.departuresOf found).length = found.length := by
    rw [← List.length_map Ledger.Departure.job, Ledger.map_job_departuresOf]
  refine ⟨l.departuresOf found, Ledger.clears_evict h hfound, fun listeners w => ⟨?_, ?_, ?_⟩⟩
  · rw [Ledger.evictEach_eq h hfound, hlength]
  · intro view hsub
    rw [Ledger.evictEach_eq h hfound, hsub.view_announce]
    exact Registry.letsGo_dropAll _ _
  · intro later hlater foundNext foundAll hnext hall
    exact compose_evictEach h hlater hfound hnext hall listeners w

-- The registry, and one who writes down what he hears.
def recorders : List (Listener (Registry × List JobId)) :=
  [fun l id w => (Registry.releasing l id w.1, w.2), fun _ id w => (w.1, w.2 ++ [id])]

theorem subscribed_recorders : Registry.Subscribed Prod.fst recorders where
  told := ⟨_, List.mem_cons_self, fun _ _ _ => rfl⟩
  alone := by
    intro listener hlistener
    simp only [recorders, List.mem_cons, List.not_mem_nil, or_false] at hlistener
    rcases hlistener with rfl | rfl
    · exact .inl fun _ _ _ => rfl
    · exact .inr fun _ _ _ => rfl

-- One job has come to an end at 20 and one at 25. A third shares a file with the first.
def twoEnds : List Deed :=
  [⟨1, .create ⟨1⟩ [] 0⟩, ⟨2, .create ⟨2⟩ [] 0⟩, ⟨3, .create ⟨3⟩ [] 0⟩, ⟨4, .startAttempt ⟨1⟩⟩,
    ⟨5, .startAttempt ⟨2⟩⟩, ⟨20, .complete ⟨1⟩ ⟨"out", 8, 0⟩⟩, ⟨25, .fail ⟨2⟩ "lost"⟩]

def sharedFile : Registry :=
  ⟨[], [(⟨1⟩, [.along .root ["a"] .step, .along .root ["b"] .step]),
    (⟨3⟩, [.along .root ["a"] .step])]⟩

theorem evictEach_clears_and_composes_twoEnds :
    ∃ l, Ledger.empty.after twoEnds = l ∧ [⟨1⟩].Perm (l.evict 4 25).1 ∧
      [⟨2⟩].Perm ((l.evict 4 25).2.evict 4 30).1 ∧ [⟨2⟩, ⟨1⟩].Perm (l.evict 4 30).1 ∧
      ∃ departures, l.Clears 4 25 departures (l.evict 4 25).2 ∧
        l.evictEach (25 - 4) recorders [⟨1⟩] (sharedFile, []) =
          ⟨1, (l.evict 4 25).2, (⟨[], [(⟨3⟩, [.along .root ["a"] .step])]⟩, [⟨1⟩])⟩ ∧
        sharedFile.LetsGo (departures.map Ledger.Departure.job)
          ⟨[], [(⟨3⟩, [.along .root ["a"] .step])]⟩ ∧
        Eviction.Compose recorders (l.evictEach (25 - 4) recorders [⟨1⟩] (sharedFile, []))
          ((l.evict 4 25).2.evictEach (30 - 4) recorders [⟨2⟩]
            (⟨[], [(⟨3⟩, [.along .root ["a"] .step])]⟩, [⟨1⟩]))
          (l.evictEach (30 - 4) recorders [⟨2⟩, ⟨1⟩] (sharedFile, [])) := by
  have hreached : Ledger.empty.after twoEnds = _ := rfl
  have hfound : [⟨1⟩].Perm ((Ledger.empty.after twoEnds).evict 4 25).1 := .refl _
  have hnext : [⟨2⟩].Perm (((Ledger.empty.after twoEnds).evict 4 25).2.evict 4 30).1 := .refl _
  have hall : [⟨2⟩, ⟨1⟩].Perm ((Ledger.empty.after twoEnds).evict 4 30).1 := .swap _ _ _
  obtain ⟨departures, hclears, hany⟩ := evictEach_clears_and_composes hreached hfound
  obtain ⟨-, hregistry, hcompose⟩ := hany recorders (sharedFile, [])
  exact ⟨_, rfl, hfound, hnext, hall, departures, hclears, rfl,
    hregistry Prod.fst subscribed_recorders, hcompose 30 (by decide) _ _ hnext hall⟩

open Ledger in
theorem announce_recorders (departures : List Departure) (r : Registry) (ids : List JobId) :
    announce recorders departures (r, ids) =
      (r.dropAll (departures.map Departure.job), ids ++ departures.map Departure.job) := by
  induction departures generalizing r ids with
  | nil => simp [announce, Registry.dropAll]
  | cons departure rest ih =>
    have hstep : departure.left.notify recorders departure.job (r, ids) =
        (r.drop departure.job, ids ++ [departure.job]) := rfl
    simp only [announce, List.foldl_cons, hstep] at ih ⊢
    rw [ih, List.append_assoc]
    rfl

-- An engine evicts in this way. It subscribes its registry, and keeps the jobs for those who are
-- still to be told.
open Engine in
theorem evict_eq_evictEach (s : State) (h : s.ledger.Distinct) (ttl now : Nat) :
    let e := s.ledger.evictEach (now - ttl) recorders (s.ledger.evict ttl now).1
      (s.registry, s.evicted)
    s.evict ttl now =
      (e.count, { s with ledger := e.ledger, registry := e.world.1, evicted := e.world.2 }) := by
  simp only [Ledger.evictEach_eq h (.refl _), announce_recorders, Ledger.map_job_departuresOf]
  rfl

end Foreman
