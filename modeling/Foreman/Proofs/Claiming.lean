import Foreman.Ledger.Eviction
import Foreman.Proofs.Files.Spelling
import Foreman.Proofs.Registry
import Mathlib.Data.List.Induction

namespace Foreman.Registry

open Foreman.Path (names normalForm spellOut)

-- What a job has leaves the registry and is handed over.
def letGo (r : Registry) (job : JobId) : List Path × Registry :=
  let (own, others) := r.claims.partition (fun claim => claim.1 == job)
  (own.flatMap Prod.snd, { r with claims := others })

-- All that changes a registry. The ledger that an evicted job has left is told along with the job.
inductive Act where
  | register (job : JobId) (text : String)
  | unregister (job : JobId)
  | evicted (left : Ledger) (job : JobId)

def Act.Releases (job : JobId) : Act → Prop
  | register _ _ => False
  | unregister other | evicted _ other => other = job

def act (r : Registry) : Act → Registry
  | .register job text => r.claim job (Path.ofText text)
  | .unregister job => (r.letGo job).2
  | .evicted left job => releasing left job r

def after (r : Registry) (acts : List Act) : Registry := acts.foldl act r

-- The job has registered this text, and has not been released since.
def Holds (acts : List Act) (job : JobId) (text : String) : Prop :=
  ∃ earlier later, acts = earlier ++ .register job text :: later ∧
    ∀ act ∈ later, ¬ act.Releases job

variable {r : Registry} {p q : Path} {job other : JobId} {place : Option (List String)}
  {acts : List Act} {last : Act} {text : String} {others : List Path}

theorem not_holds_nil : ¬ Holds [] job text := by
  rintro ⟨earlier, later, heq, -⟩
  simp at heq

theorem holds_concat_iff : Holds (acts ++ [last]) job text ↔
    (Holds acts job text ∨ last = .register job text) ∧ ¬ last.Releases job := by
  constructor
  · rintro ⟨earlier, later, heq, hkept⟩
    rcases List.eq_nil_or_concat later with rfl | ⟨later, final, rfl⟩
    · obtain ⟨rfl, hlast⟩ := List.append_inj' heq rfl
      obtain rfl := List.singleton_inj.mp hlast
      exact ⟨.inr rfl, id⟩
    · rw [List.concat_eq_append, ← List.cons_append, ← List.append_assoc] at heq
      obtain ⟨rfl, hlast⟩ := List.append_inj' heq rfl
      obtain rfl := List.singleton_inj.mp hlast
      refine ⟨.inl ⟨earlier, later, rfl, fun act hact => hkept act ?_⟩, hkept last ?_⟩
      · exact List.concat_eq_append ▸ List.mem_append_left _ hact
      · simp
  · rintro ⟨⟨earlier, later, rfl, hkept⟩ | rfl, hlast⟩
    · refine ⟨earlier, later ++ [last], by simp, fun act hact => ?_⟩
      rcases List.mem_append.mp hact with hold | hnew
      · exact hkept act hold
      · exact List.mem_singleton.mp hnew ▸ hlast
    · exact ⟨acts, [], rfl, by simp⟩

-- Places are what paths of a registry have in common when they count as the same.

theorem exists_join_iff : (∃ q ∈ r.join p others, q.normal r.home = place) ↔
    p.normal r.home = place ∨ ∃ q ∈ others, q.normal r.home = place := by
  unfold join
  split
  · rename_i hany
    obtain ⟨found, hfound, hsame⟩ := List.any_eq_true.mp hany
    have hplace : p.normal r.home = found.normal r.home := by simpa [isSame] using hsame
    refine ⟨.inr, ?_⟩
    rintro (rfl | hold)
    · exact ⟨found, hfound, hplace.symm⟩
    · exact hold
  · simp only [List.mem_append, List.mem_singleton, or_and_right, exists_or, exists_eq_left,
      Path.normal_absolute]
    exact or_comm

theorem mem_join (h : q ∈ r.join p others) : q ∈ others ∨ q = p.absolute r.home := by
  unfold join at h
  split at h
  · exact .inl h
  · simpa using h

theorem nodup_join (h : (others.map (Path.normal r.home)).Nodup) (p : Path) :
    ((r.join p others).map (Path.normal r.home)).Nodup := by
  unfold join
  split
  · exact h
  · rename_i hnone
    rw [List.map_append, List.nodup_append]
    refine ⟨h, List.nodup_singleton _, ?_⟩
    rintro place hother _ hp rfl
    obtain ⟨q, hq, hplace⟩ := List.mem_map.mp hother
    have hsame : place = p.normal r.home := by simpa [Path.normal_absolute] using hp
    refine hnone (List.any_eq_true.mpr ⟨q, hq, ?_⟩)
    simp [isSame, hplace, hsame]

-- Many paths that join one after another.

theorem exists_foldl_join_iff (r : Registry) (found seen : List Path) :
    (∃ q ∈ found.foldl (fun seen p => r.join p seen) seen, q.normal r.home = place) ↔
      (∃ q ∈ seen, q.normal r.home = place) ∨ ∃ q ∈ found, q.normal r.home = place := by
  induction found generalizing seen with
  | nil => simp
  | cons p found ih =>
    rw [List.foldl_cons, ih, exists_join_iff]
    simp only [List.exists_mem_cons_iff]
    exact or_assoc.trans or_left_comm

theorem mem_foldl_join (r : Registry) (found seen : List Path)
    (h : q ∈ found.foldl (fun seen p => r.join p seen) seen) :
    q ∈ seen ∨ ∃ p ∈ found, q = p.absolute r.home := by
  induction found generalizing seen with
  | nil => exact .inl h
  | cons p found ih =>
    rcases ih (r.join p seen) h with hjoined | ⟨p', hp', rfl⟩
    · rcases mem_join hjoined with hseen | rfl
      · exact .inl hseen
      · exact .inr ⟨p, List.mem_cons_self, rfl⟩
    · exact .inr ⟨p', List.mem_cons_of_mem _ hp', rfl⟩

theorem nodup_foldl_join (r : Registry) (found seen : List Path)
    (h : (seen.map (Path.normal r.home)).Nodup) :
    ((found.foldl (fun seen p => r.join p seen) seen).map (Path.normal r.home)).Nodup := by
  induction found generalizing seen with
  | nil => exact h
  | cons p found ih => exact ih _ (nodup_join h p)

-- What one act makes of the paths of one job.

theorem letGo_snd (r : Registry) (job : JobId) : (r.letGo job).2 = r.drop job := by
  simp only [letGo, drop, List.partition_eq_filter_filter]
  rfl

theorem letGo_eq (h : r.Distinct) (job : JobId) : r.letGo job = (r.paths job, r.drop job) := by
  refine Prod.ext ?_ (letGo_snd r job)
  simp only [letGo, List.partition_eq_filter_filter, paths]
  cases hfind : r.claims.find? (fun claim => claim.1 == job) with
  | none =>
    have hnone : r.claims.filter (fun claim => claim.1 == job) = [] := by
      rw [List.filter_eq_nil_iff]
      exact List.find?_eq_none.mp hfind
    rw [hnone]
    rfl
  | some own =>
    obtain rfl : own.1 = job := by simpa using List.find?_some hfind
    rw [Keyed.filter_key h (List.mem_of_find?_eq_some hfind)]
    simp

theorem paths_act_of_releases (h : last.Releases job) : (r.act last).paths job = [] := by
  cases last with
  | register other text => exact absurd h id
  | unregister other =>
    obtain rfl : other = job := h
    rw [act, letGo_snd, paths_drop]
  | evicted left other =>
    obtain rfl : other = job := h
    exact paths_drop r other

theorem paths_act_of_other (hreleases : ¬ last.Releases job)
    (hregister : ∀ text, last ≠ .register job text) : (r.act last).paths job = r.paths job := by
  cases last with
  | register other text =>
    have hne : job ≠ other := fun he => hregister text (he ▸ rfl)
    exact paths_claim_of_ne r _ hne
  | unregister other =>
    rw [act, letGo_snd]
    exact paths_drop_of_ne r (Ne.symm hreleases)
  | evicted left other => exact paths_drop_of_ne r (Ne.symm hreleases)

theorem extends_act (r : Registry) (act : Act) : r.Extends (r.act act) := by
  cases act with
  | register job text => exact extends_claim r job _
  | unregister job =>
    rw [Registry.act, letGo_snd]
    exact extends_drop r job
  | evicted left job => exact extends_drop r job

theorem extends_after (r : Registry) (acts : List Act) : r.Extends (r.after acts) := by
  induction acts generalizing r with
  | nil => exact .same r
  | cons act acts ih => exact (extends_act r act).trans (ih (r.act act))

-- The paths of a job are the texts it holds, spelled out, and each place is there once.
structure Mirrors (cwd : String) (acts : List Act) (job : JobId) (paths : List Path) : Prop where
  spelled : ∀ p ∈ paths, ∃ text, Holds acts job text ∧
    p = (Path.ofText text).absolute (names cwd)
  place_iff : ∀ place, (∃ p ∈ paths, p.normal (names cwd) = place) ↔
    ∃ text, Holds acts job text ∧ normalForm cwd text = place
  once : (paths.map (Path.normal (names cwd))).Nodup

theorem Mirrors.of_releases (cwd : String) (acts : List Act) (h : last.Releases job) :
    Mirrors cwd (acts ++ [last]) job [] := by
  have hnone : ∀ text, ¬ Holds (acts ++ [last]) job text :=
    fun text hheld => (holds_concat_iff.mp hheld).2 h
  exact ⟨by simp, by simp [hnone], List.nodup_nil⟩

theorem Mirrors.of_other {cwd : String} {paths : List Path} (h : Mirrors cwd acts job paths)
    (hreleases : ¬ last.Releases job) (hregister : ∀ text, last ≠ .register job text) :
    Mirrors cwd (acts ++ [last]) job paths := by
  have hsame : ∀ text, Holds (acts ++ [last]) job text ↔ Holds acts job text := by
    intro text
    simp only [holds_concat_iff, hregister text, hreleases, or_false, not_false_iff, and_true]
  exact ⟨by simpa only [hsame] using h.spelled, by simpa only [hsame] using h.place_iff, h.once⟩

theorem Mirrors.of_register {cwd : String} {paths : List Path} (h : Mirrors cwd acts job paths)
    (hhome : r.home = names cwd) (text : String) :
    Mirrors cwd (acts ++ [.register job text]) job (r.join (Path.ofText text) paths) := by
  have hheld : ∀ other, Holds (acts ++ [.register job text]) job other ↔
      Holds acts job other ∨ text = other := by
    intro other
    simp [holds_concat_iff, Act.Releases]
  refine ⟨?_, ?_, ?_⟩
  · intro p hp
    rcases mem_join hp with hold | rfl
    · obtain ⟨other, hother, rfl⟩ := h.spelled p hold
      exact ⟨other, (hheld other).mpr (.inl hother), rfl⟩
    · exact ⟨text, (hheld text).mpr (.inr rfl), by rw [hhome]⟩
  · intro place
    have hjoin : (∃ q ∈ r.join (Path.ofText text) paths, q.normal r.home = place) ↔
        (Path.ofText text).normal r.home = place ∨ ∃ q ∈ paths, q.normal r.home = place :=
      exists_join_iff
    rw [hhome, Path.normal_ofText, h.place_iff] at hjoin
    rw [hjoin]
    simp only [hheld, or_and_right, exists_or, exists_eq_left']
    exact or_comm
  · have honce := h.once
    rw [← hhome] at honce ⊢
    exact nodup_join honce _

theorem mirrors_after (cwd : String) (acts : List Act) (job : JobId) :
    Mirrors cwd acts job (((ofHome (names cwd)).after acts).paths job) := by
  induction acts using List.reverseRecOn with
  | nil => exact ⟨nofun, by simp [not_holds_nil, after, ofHome, paths], List.nodup_nil⟩
  | append_singleton acts last ih =>
    have hafter : (ofHome (names cwd)).after (acts ++ [last]) =
        ((ofHome (names cwd)).after acts).act last := by
      simp [after]
    have hhome : ((ofHome (names cwd)).after acts).home = names cwd := (extends_after _ acts).home
    rw [hafter]
    by_cases hreleases : last.Releases job
    · rw [paths_act_of_releases hreleases]
      exact .of_releases cwd acts hreleases
    · by_cases hregister : ∃ text, last = .register job text
      · obtain ⟨text, rfl⟩ := hregister
        rw [act, paths_claim_self]
        exact ih.of_register hhome text
      · have hother : ∀ text, last ≠ .register job text := fun text he => hregister ⟨text, he⟩
        rw [paths_act_of_other hreleases hother]
        exact ih.of_other hreleases hother

theorem distinct_after (home : List String) (acts : List Act) :
    ((ofHome home).after acts).Distinct :=
  (extends_after _ acts).distinct List.nodup_nil

theorem isClaimed_after_iff (cwd : String) (acts : List Act) (text : String) :
    ((ofHome (names cwd)).after acts).isClaimed (Path.ofText text) = true ↔
      ∃ job other, Holds acts job other ∧ normalForm cwd other = normalForm cwd text := by
  have hhome : ((ofHome (names cwd)).after acts).home = names cwd := (extends_after _ acts).home
  rw [isClaimed_iff (distinct_after _ acts)]
  refine exists_congr fun job => ?_
  rw [← (mirrors_after cwd acts job).place_iff]
  simp only [isSame, hhome, Path.normal_ofText, beq_iff_eq]
  exact exists_congr fun q => and_congr_right fun _ => eq_comm

-- What all jobs have together, each place once.
theorem union_active (h : r.Distinct)
    (hspelled : ∀ job, ∀ p ∈ r.paths job, p.absolute r.home = p) :
    (∀ p ∈ r.active, ∃ job, p ∈ r.paths job) ∧
      (∀ job, ∀ p ∈ r.paths job, ∃ q ∈ r.active, r.isSame p q = true) ∧
      (r.active.map (Path.normal r.home)).Nodup := by
  refine ⟨?_, ?_, nodup_foldl_join r _ [] List.nodup_nil⟩
  · intro p hp
    rcases mem_foldl_join r _ [] hp with hnone | ⟨found, hfound, rfl⟩
    · exact absurd hnone List.not_mem_nil
    · obtain ⟨job, hjob⟩ := (exists_claim_iff h).mp (List.mem_flatMap.mp hfound)
      exact ⟨job, (hspelled job found hjob).symm ▸ hjob⟩
  · intro job p hp
    have hfound : p ∈ r.claims.flatMap Prod.snd :=
      List.mem_flatMap.mpr ((exists_claim_iff h).mpr ⟨job, hp⟩)
    obtain ⟨q, hq, hplace⟩ :=
      (exists_foldl_join_iff r (r.claims.flatMap Prod.snd) []).mpr (.inr ⟨p, hfound, rfl⟩)
    exact ⟨q, hq, by simp [isSame, hplace]⟩

theorem isClaimed_drop_iff (h : r.Distinct) (job : JobId) (p : Path) :
    (r.drop job).isClaimed p = true ↔
      ∃ other, other ≠ job ∧ ∃ q ∈ r.paths other, r.isSame p q = true := by
  rw [isClaimed_iff ((extends_drop r job).distinct h)]
  refine exists_congr fun other => ?_
  by_cases he : other = job
  · simp [he, paths_drop]
  · rw [paths_drop_of_ne r he]
    simp only [he, not_false_iff, true_and, ne_eq]
    rfl

-- The registry of a working directory after some acts relates jobs to the places that their texts
-- come down to.
structure Relates (cwd : String) (acts : List Act) (r : Registry) : Prop where
  active_iff : ∀ text, r.isClaimed (Path.ofText text) = true ↔
    ∃ job other, Holds acts job other ∧ normalForm cwd other = normalForm cwd text
  own : ∀ job, Mirrors cwd acts job (r.paths job)
  union : (∀ p ∈ r.active, ∃ job, p ∈ r.paths job) ∧
    (∀ job, ∀ p ∈ r.paths job, ∃ q ∈ r.active, r.isSame p q = true) ∧
    (r.active.map (Path.normal r.home)).Nodup
  released : ∀ job, (r.letGo job).1 = r.paths job ∧ (r.letGo job).2.paths job = [] ∧
    (∀ other, other ≠ job → (r.letGo job).2.paths other = r.paths other) ∧
    ∀ p, (r.letGo job).2.isClaimed p = true ↔
      ∃ other, other ≠ job ∧ ∃ q ∈ r.paths other, r.isSame p q = true

-- Whatever has been registered and released, from whatever working directory and in whatever
-- spelling, a registry is a relation between jobs and places.
theorem relates_after (cwd : String) (acts : List Act) :
    Relates cwd acts ((ofHome (names cwd)).after acts) ∧
      ∀ elsewhere text, spellOut elsewhere (spellOut cwd text) = spellOut cwd text := by
  have hdistinct := distinct_after (names cwd) acts
  have hhome : ((ofHome (names cwd)).after acts).home = names cwd := (extends_after _ acts).home
  refine ⟨⟨isClaimed_after_iff cwd acts, mirrors_after cwd acts, ?_, ?_⟩,
    Path.spellOut_spellOut cwd⟩
  · refine union_active hdistinct fun job p hp => ?_
    obtain ⟨text, -, rfl⟩ := (mirrors_after cwd acts job).spelled p hp
    rw [hhome, Path.absolute_absolute]
  · intro job
    rw [letGo_eq hdistinct]
    exact ⟨rfl, paths_drop _ job, fun other hne => paths_drop_of_ne _ hne,
      isClaimed_drop_iff hdistinct job⟩

end Foreman.Registry
