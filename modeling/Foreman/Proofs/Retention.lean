import Foreman.Proofs.Files.Walk
import Foreman.Proofs.Registry
import Foreman.Retention

namespace Foreman.RetentionRules

variable {r : RetentionRules} {registry : Registry} {t t' : Tree} {now : Int}
  {place dir : List String} {name : String} {size : Nat} {changed : Int} {report : SweepReport}

theorem mem_files {entries : List (String × Node)} :
    (name, size, changed) ∈ files entries ↔
      (name, .file size changed) ∈ entries ∧ isHidden name = false := by
  simp only [files, List.mem_filterMap]
  constructor
  · rintro ⟨⟨other, node⟩, hentry, hsome⟩
    cases node with
    | file otherSize otherChanged =>
      simp only at hsome
      split at hsome
      · cases hsome
      · rename_i hhidden
        cases hsome
        exact ⟨hentry, by simpa using hhidden⟩
    | directory => cases hsome
    | link target => cases hsome
  · rintro ⟨hentry, hhidden⟩
    exact ⟨_, hentry, by simp [hhidden]⟩

end Foreman.RetentionRules

namespace Foreman.Tree

variable {t : Tree} {dir : List String} {name : String} {node : Node}

theorem mem_entries : (name, node) ∈ t.entries dir ↔ (dir ++ [name], node) ∈ t.nodes := by
  simp only [entries, List.mem_filterMap]
  constructor
  · rintro ⟨⟨place, found⟩, hentry, hsome⟩
    split at hsome
    · rename_i hdir
      obtain ⟨last, hlast, heq⟩ := Option.map_eq_some_iff.mp hsome
      obtain ⟨rfl, rfl⟩ := Prod.mk.inj heq
      rw [← hdir, List.dropLast_append_getLast? _ hlast]
      exact hentry
    · cases hsome
  · intro hentry
    exact ⟨_, hentry, by simp⟩

theorem node?_eq_some_iff (h : (t.nodes.map Prod.fst).Nodup) {place : List String}
    (hplace : place ≠ []) : t.node? place = some node ↔ (place, node) ∈ t.nodes := by
  refine ⟨fun hnode => node?_mem hnode hplace, fun hmem => ?_⟩
  have hfind : t.nodes.find? (fun entry => entry.1 == place) = some (place, node) :=
    Keyed.find?_key h hmem
  simp only [node?, if_neg hplace, hfind, Option.map_some]

theorem Plain.node?_eq_some_iff (h : t.Plain) {place : List String} (hplace : place ≠ []) :
    t.node? place = some node ↔ (place, node) ∈ t.nodes :=
  Tree.node?_eq_some_iff h.distinct hplace

end Foreman.Tree

namespace Foreman.RetentionRules

variable {r : RetentionRules} {registry : Registry} {t t' : Tree} {now : Int}
  {place dir : List String} {size : Nat} {changed : Int} {report : SweepReport}

-- The places of the files that a sweep of a directory takes away.
def doomed (r : RetentionRules) (registry : Registry) (t : Tree) (now : Int)
    (dir : List String) : List (List String) :=
  ((files (t.entries dir)).filter
    (fun (name, _, changed) => r.isDoomed registry now name changed)).map
      (fun (name, _) => dir ++ [name])

theorem mem_doomed : place ∈ r.doomed registry t now dir ↔
    ∃ name size changed, place = dir ++ [name] ∧ (place, .file size changed) ∈ t.nodes ∧
      isHidden name = false ∧ r.isDoomed registry now name changed = true := by
  simp only [doomed, List.mem_map, List.mem_filter]
  constructor
  · rintro ⟨⟨name, size, changed⟩, ⟨hfound, hdoomed⟩, rfl⟩
    obtain ⟨hentry, hhidden⟩ := mem_files.mp hfound
    exact ⟨name, size, changed, rfl, Tree.mem_entries.mp hentry, hhidden, hdoomed⟩
  · rintro ⟨name, size, changed, rfl, hentry, hhidden, hdoomed⟩
    exact ⟨(name, size, changed), ⟨mem_files.mpr ⟨Tree.mem_entries.mpr hentry, hhidden⟩, hdoomed⟩,
      rfl⟩

-- What there is after a sweep, also when it could not be made.
def swept (r : RetentionRules) (registry : Registry) (t : Tree) (now : Int) : Tree :=
  match r.sweep registry t now false with
  | .ok (_, t) => t
  | .error _ => t

theorem swept_eq (r : RetentionRules) (registry : Registry) (t : Tree) (now : Int) :
    r.swept registry t now = match t.directory r.outputDir with
      | .ok dir => t.eraseAll (r.doomed registry t now dir)
      | .error _ => t := by
  unfold swept sweep
  cases t.directory r.outputDir with
  | ok dir => rfl
  | error fault => cases fault <;> rfl

-- A sweep takes a file away just if the file lies in the output directory and is due.
theorem swept_takes_iff (hplain : t.Plain) (hfile : t.node? place = some (.file size changed)) :
    (r.swept registry t now).node? place = none ↔ ∃ dir name,
      t.directory r.outputDir = .ok dir ∧ place = dir ++ [name] ∧ isHidden name = false ∧
        r.isDoomed registry now name changed = true := by
  have hplace : place ≠ [] := by
    rintro rfl
    simp [Tree.node?] at hfile
  rw [swept_eq]
  cases hdir : t.directory r.outputDir with
  | error fault => simp [hfile]
  | ok dir =>
    have hmem : place ∈ r.doomed registry t now dir ↔ ∃ name, place = dir ++ [name] ∧
        isHidden name = false ∧ r.isDoomed registry now name changed = true := by
      rw [mem_doomed]
      constructor
      · rintro ⟨name, _, _, hname, hentry, hdue⟩
        have hnode := (hplain.node?_eq_some_iff hplace).mpr hentry
        rw [hfile] at hnode
        cases hnode
        exact ⟨name, hname, hdue⟩
      · rintro ⟨name, hname, hdue⟩
        exact ⟨name, size, changed, hname, (hplain.node?_eq_some_iff hplace).mp hfile, hdue⟩
    simp only [Tree.node?_eraseAll _ _ hplace, Except.ok.injEq, exists_and_left, exists_eq_left',
      ← hmem, hfile]
    simp

end Foreman.RetentionRules
