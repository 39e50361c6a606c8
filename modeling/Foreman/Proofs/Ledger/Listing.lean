import Foreman.Proofs.Ledger.Frozen

namespace Foreman

-- Whether a job has the status that is asked for, if one is.
def Job.Suits (status : Option Status) (job : Job) : Prop := ∀ s ∈ status, job.status = s

instance (status : Option Status) : DecidablePred (Job.Suits status) :=
  fun job => inferInstanceAs (Decidable (∀ s ∈ status, job.status = s))

namespace Ledger

variable {l : Ledger} {id : JobId} {job : Job} {status : Option Status} {limit : Nat}
  {found listed : List Job}

-- What is to be listed: so many of the jobs that suit as there are or may be, none of them twice
-- and each as it is on record, the newest first. No job that is left out is newer than one that is
-- not.
structure ListsNewest (l : Ledger) (status : Option Status) (limit : Nat) (listed : List Job) :
    Prop where
  distinct : (listed.map Job.id).Nodup
  suits : ∀ job ∈ listed, job.Suits status
  stored : ∀ job ∈ listed, l.get? job.id = some job
  length : listed.length = min limit (l.jobs.countP (fun job => job.Suits status))
  newestFirst : listed.Pairwise (fun a b => b.times.created ≤ a.times.created)
  leftOut : ∀ id job, l.get? id = some job → job.Suits status → id ∉ listed.map Job.id →
    ∀ other ∈ listed, job.times.created ≤ other.times.created

theorem matching_eq_filter (l : Ledger) (status : Option Status) :
    l.matching status = l.jobs.filter (fun job => job.Suits status) := by
  refine List.filter_congr fun job _ => ?_
  cases status with
  | none => simp [Job.Suits]
  | some s => simp [Job.Suits, beq_eq_decide]

-- All that suit, before the limit cuts any of them off.
def newestFirst (l : Ledger) (status : Option Status) : List Job :=
  (l.matching status).mergeSort (fun a b => b.times.created ≤ a.times.created)

theorem newestFirst_pairwise (l : Ledger) (status : Option Status) :
    (l.newestFirst status).Pairwise (fun a b => b.times.created ≤ a.times.created) := by
  have hsorted : ((l.matching status).mergeSort
      (fun a b => b.times.created ≤ a.times.created)).Pairwise
        (fun a b => decide (b.times.created ≤ a.times.created) = true) :=
    List.pairwise_mergeSort
      (fun a b c => by simp only [decide_eq_true_eq]; omega)
      (fun a b => by simp only [Bool.or_eq_true, decide_eq_true_eq]; omega) _
  exact hsorted.imp fun hle => of_decide_eq_true hle

-- In whatever order the records are come upon, these are the same jobs.
theorem newestFirst_perm (hfound : found.Perm l.jobs) (status : Option Status) :
    ((⟨found⟩ : Ledger).newestFirst status).Perm
      (l.jobs.filter (fun job => job.Suits status)) := by
  refine (List.mergeSort_perm _ _).trans ?_
  rw [matching_eq_filter]
  exact hfound.filter _

theorem listsNewest_of_perm (h : l.Distinct) (hfound : found.Perm l.jobs) (status : Option Status)
    (limit : Nat) : l.ListsNewest status limit ((⟨found⟩ : Ledger).list status limit) := by
  -- The list is what comes first in all that suit, and the rest is left out.
  have hlist : (⟨found⟩ : Ledger).list status limit =
      ((⟨found⟩ : Ledger).newestFirst status).take limit := rfl
  have hsorted := newestFirst_pairwise ⟨found⟩ status
  have hperm := newestFirst_perm hfound status
  rw [hlist]
  generalize (⟨found⟩ : Ledger).newestFirst status = all at hsorted hperm ⊢
  have hmem : ∀ job ∈ all.take limit, job ∈ l.jobs ∧ job.Suits status := fun job hjob => by
    simpa using hperm.subset ((List.take_subset limit all) hjob)
  have hids : (all.map Job.id).Nodup :=
    (hperm.map Job.id).nodup_iff.mpr (h.sublist (List.filter_sublist.map _))
  exact
    { distinct := hids.sublist ((List.take_sublist limit all).map _)
      suits := fun job hjob => (hmem job hjob).2
      stored := fun job hjob => get?_of_mem h (hmem job hjob).1
      length := by
        rw [List.length_take, hperm.length_eq, List.countP_eq_length_filter]
      newestFirst := hsorted.sublist (List.take_sublist limit all)
      leftOut := by
        intro id job hjob hsuits hout other hother
        obtain ⟨hstored, rfl⟩ := get?_mem hjob
        have hall : job ∈ all := hperm.symm.subset (by simpa using ⟨hstored, hsuits⟩)
        rw [← List.take_append_drop limit all, List.mem_append] at hall
        have hdropped : job ∈ all.drop limit :=
          hall.resolve_left fun htaken => hout (List.mem_map_of_mem htaken)
        rw [← List.take_append_drop limit all, List.pairwise_append] at hsorted
        exact hsorted.2.2 other hother job hdropped }

end Ledger

-- At any time, and in whatever order the records are come upon: the jobs that are listed are the
-- newest of those that are asked for.
theorem listsNewest_of_deeds (deeds : List Deed) {found : List Job}
    (hfound : found.Perm (Ledger.empty.after deeds).jobs) (status : Option Status) (limit : Nat) :
    (Ledger.empty.after deeds).ListsNewest status limit
      ((⟨found⟩ : Ledger).list status limit) :=
  Ledger.listsNewest_of_perm (Ledger.distinct_after Ledger.distinct_empty deeds) hfound status
    limit

-- Of three pending jobs two were made at the same time, before the third. A fourth is newer than
-- all of them, and has begun.
def fourJobs : List Deed :=
  [⟨10, .create ⟨1⟩ [] 0⟩, ⟨10, .create ⟨2⟩ [] 0⟩, ⟨20, .create ⟨3⟩ [] 0⟩, ⟨30, .create ⟨4⟩ [] 0⟩,
    ⟨31, .startAttempt ⟨4⟩⟩]

-- Whoever comes upon the records from the last to the first lists the other one of the two.
theorem listsNewest_of_deeds_fourJobs :
    (Ledger.empty.after fourJobs).jobs.reverse.Perm (Ledger.empty.after fourJobs).jobs ∧
      (Ledger.empty.after fourJobs).ListsNewest (some .pending) 2
        ((⟨(Ledger.empty.after fourJobs).jobs.reverse⟩ : Ledger).list (some .pending) 2) ∧
      ((⟨(Ledger.empty.after fourJobs).jobs.reverse⟩ : Ledger).list (some .pending) 2).map Job.id =
        [⟨3⟩, ⟨2⟩] ∧
      ((Ledger.empty.after fourJobs).list (some .pending) 2).map Job.id = [⟨3⟩, ⟨1⟩] := by
  have hfound : (Ledger.empty.after fourJobs).jobs.reverse.Perm
      (Ledger.empty.after fourJobs).jobs := List.reverse_perm _
  have hforward : (Ledger.empty.after fourJobs).matching (some .pending) =
      [.fresh ⟨1⟩ [] 0 10, .fresh ⟨2⟩ [] 0 10, .fresh ⟨3⟩ [] 0 20] := rfl
  have hbackward : (⟨(Ledger.empty.after fourJobs).jobs.reverse⟩ : Ledger).matching
      (some .pending) = [.fresh ⟨3⟩ [] 0 20, .fresh ⟨2⟩ [] 0 10, .fresh ⟨1⟩ [] 0 10] := rfl
  refine ⟨hfound, listsNewest_of_deeds fourJobs hfound (some .pending) 2, ?_, ?_⟩
  · simp [Ledger.list, hbackward, List.mergeSort, Job.fresh]
  · simp [Ledger.list, hforward, List.mergeSort, Job.fresh]

end Foreman
