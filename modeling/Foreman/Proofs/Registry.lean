import Foreman.Registry
import Foreman.Proofs.Keyed
import Mathlib.Data.List.Find

namespace Foreman.Registry

variable {r : Registry} {p q : Path} {job other : JobId}

theorem isSame_absolute (r : Registry) (p : Path) : r.isSame p (p.absolute r.home) = true := by
  simp [isSame, Path.normal_absolute]

theorem exists_mem_join (r : Registry) (p : Path) (others : List Path) :
    ∃ q ∈ r.join p others, r.isSame p q = true := by
  unfold join
  split
  · rename_i hany
    exact List.any_eq_true.mp hany
  · exact ⟨p.absolute r.home, by simp, isSame_absolute r p⟩

-- A claim of a job replaces what the job had under its name.
theorem fst_claimed (r : Registry) (job : JobId) (p : Path) (claim : JobId × List Path) :
    (if claim.1 = job then (job, r.join p claim.2) else claim).1 = claim.1 := by
  split
  · rename_i he
    exact he.symm
  · rfl

theorem mem_join_of_mem {others : List Path} (p : Path) (hq : q ∈ others) :
    q ∈ r.join p others := by
  unfold join
  split
  · exact hq
  · exact List.mem_append_left _ hq

-- A claim adds to what the job has, and is no concern of another job.
theorem paths_claim_self (r : Registry) (job : JobId) (p : Path) :
    (r.claim job p).paths job = r.join p (r.paths job) := by
  unfold claim
  cases hfind : r.claims.find? (fun claim => claim.1 == job) with
  | none =>
    have hany : r.claims.any (fun claim => claim.1 == job) = false := by
      simpa using hfind
    simp [hany, paths, hfind, List.find?_append, join]
  | some own =>
    have hown : own.1 = job := by simpa using List.find?_some hfind
    have hany : r.claims.any (fun claim => claim.1 == job) = true :=
      List.any_eq_true.mpr ⟨own, List.mem_of_find?_eq_some hfind, by simpa using hown⟩
    simp only [hany, if_true, paths, List.find?_map, Function.comp_def, fst_claimed, hfind,
      Option.map_some, Option.getD_some, hown]

theorem mem_paths_claim (p : Path) (hq : q ∈ r.paths job) : q ∈ (r.claim job p).paths job := by
  rw [paths_claim_self]
  exact mem_join_of_mem p hq

theorem paths_claim_of_ne (r : Registry) (p : Path) (hne : other ≠ job) :
    (r.claim job p).paths other = r.paths other := by
  unfold claim
  split
  · simp only [paths, List.find?_map, Function.comp_def, fst_claimed]
    cases hfind : r.claims.find? (fun claim => claim.1 == other) with
    | none => rfl
    | some found =>
      have hfound : found.1 = other := by simpa using List.find?_some hfind
      simp [hfound, hne]
  · simp [paths, List.find?_append, hne.symm]

theorem paths_drop_of_ne (r : Registry) (hne : other ≠ job) :
    (r.drop job).paths other = r.paths other := by
  simp only [paths, drop, List.find?_filter]
  congr 2
  apply List.find?_congr
  intro claim _
  by_cases he : claim.1 = other
  · simp [he, hne]
  · simp [he]

theorem paths_dropAll (r : Registry) (jobs : List JobId) (job : JobId) :
    (r.dropAll jobs).paths job = if job ∈ jobs then [] else r.paths job := by
  induction jobs generalizing r with
  | nil => rfl
  | cons first rest ih =>
    simp only [dropAll, List.foldl_cons] at ih ⊢
    rw [ih]
    by_cases hrest : job ∈ rest
    · simp [hrest]
    · by_cases he : job = first
      · subst he
        simp [paths_drop]
      · simp [hrest, he, paths_drop_of_ne]

-- What no operation on a registry changes: where its paths start from, and that no job is in it
-- twice.

def Distinct (r : Registry) : Prop := (r.claims.map Prod.fst).Nodup

structure Extends (r r' : Registry) : Prop where
  home : r'.home = r.home
  distinct : r.Distinct → r'.Distinct

theorem Extends.same (r : Registry) : r.Extends r := ⟨rfl, id⟩

theorem Extends.trans {r' r'' : Registry} (h : r.Extends r') (h' : r'.Extends r'') :
    r.Extends r'' :=
  ⟨h'.home.trans h.home, fun hdistinct => h'.distinct (h.distinct hdistinct)⟩

theorem extends_claim (r : Registry) (job : JobId) (p : Path) : r.Extends (r.claim job p) := by
  unfold claim
  split
  · refine ⟨rfl, fun hdistinct => ?_⟩
    have hkeys : (r.claims.map fun claim =>
        if claim.1 = job then (job, r.join p claim.2) else claim).map Prod.fst =
          r.claims.map Prod.fst := by
      rw [List.map_map]
      exact List.map_congr_left fun claim _ => fst_claimed r job p claim
    simpa only [Distinct, hkeys] using hdistinct
  · rename_i hnone
    refine ⟨rfl, fun hdistinct => ?_⟩
    simp only [Distinct, List.map_append, List.map_cons, List.map_nil]
    refine List.nodup_append.mpr ⟨hdistinct, List.nodup_singleton _, ?_⟩
    rintro key hkey _ hjob rfl
    obtain ⟨claim, hclaim, rfl⟩ := List.mem_map.mp hkey
    exact hnone (List.any_eq_true.mpr ⟨claim, hclaim, by simpa using hjob⟩)

-- After a job has laid claim to a path, one of its files is where that path leads.
theorem exists_mem_paths_claim (r : Registry) (job : JobId) (p : Path) :
    ∃ q ∈ (r.claim job p).paths job, (r.claim job p).isSame p q = true := by
  rw [paths_claim_self]
  simp only [isSame, (extends_claim r job p).home]
  exact exists_mem_join r p _

theorem extends_drop (r : Registry) (job : JobId) : r.Extends (r.drop job) :=
  ⟨rfl, fun hdistinct => hdistinct.sublist (List.filter_sublist.map _)⟩

theorem extends_dropAll (r : Registry) (jobs : List JobId) : r.Extends (r.dropAll jobs) := by
  induction jobs generalizing r with
  | nil => exact .same r
  | cons first rest ih => exact (extends_drop r first).trans (ih (r.drop first))

theorem exists_claim_iff (h : r.Distinct) :
    (∃ claim ∈ r.claims, p ∈ claim.2) ↔ ∃ job, p ∈ r.paths job := by
  constructor
  · rintro ⟨claim, hclaim, hp⟩
    have hfind : r.claims.find? (fun other => other.1 == claim.1) = some claim :=
      Keyed.find?_key h hclaim
    exact ⟨claim.1, by simpa [paths, hfind] using hp⟩
  · rintro ⟨job, hp⟩
    cases hfind : r.claims.find? (fun claim => claim.1 == job) with
    | none => simp [paths, hfind] at hp
    | some claim =>
      rw [paths, hfind] at hp
      exact ⟨claim, List.mem_of_find?_eq_some hfind, hp⟩

-- A file is claimed just if it is where one of some job's paths leads.
theorem isClaimed_iff (h : r.Distinct) :
    r.isClaimed p = true ↔ ∃ job, ∃ q ∈ r.paths job, r.isSame p q = true := by
  simp only [isClaimed, List.any_eq_true]
  constructor
  · rintro ⟨claim, hclaim, q, hq, hsame⟩
    obtain ⟨job, hjob⟩ := (exists_claim_iff h).mp ⟨claim, hclaim, hq⟩
    exact ⟨job, q, hjob, hsame⟩
  · rintro ⟨job, q, hq, hsame⟩
    obtain ⟨claim, hclaim, hmem⟩ := (exists_claim_iff h).mpr ⟨job, hq⟩
    exact ⟨claim, hclaim, q, hmem, hsame⟩

end Foreman.Registry
