import Foreman.Files.Tree
import Mathlib.Data.List.Find

namespace Foreman

namespace Path

def steps : Path → List String
  | nowhere => []
  | along _ steps _ => steps

-- Somewhere on the way the path leads back to the directory above.
def goesBack (p : Path) : Bool := p.steps.contains ".."

theorem ofList_eq_dot_iff (piece : List Char) : String.ofList piece = "." ↔ piece = ['.'] := by
  rw [show "." = String.ofList ['.'] from rfl, String.ofList_inj]

-- A single dot is no step.
theorem dot_not_mem_stepsOf (cs : List Char) : "." ∉ stepsOf cs := by
  simp only [stepsOf, List.mem_map, List.mem_filter, not_exists, not_and]
  rintro piece ⟨-, hstep⟩ hdot
  rw [(ofList_eq_dot_iff piece).mp hdot] at hstep
  cases hstep

theorem dot_not_mem_steps_ofText (s : String) : "." ∉ (ofText s).steps := by
  unfold ofText
  split
  · simp [steps]
  · exact dot_not_mem_stepsOf _

theorem route_filter {steps : List String} (hdot : "." ∉ steps) (ending : Ending) :
    (route steps ending).filter (· != ".") = steps := by
  have hsteps : steps.filter (· != ".") = steps := by
    rw [List.filter_eq_self]
    intro step hstep
    simpa using fun (he : step = ".") => hdot (he ▸ hstep)
  cases ending with
  | step => exact hsteps
  | slash => simp [route, List.filter_append, hsteps]
  | dot => simp [route, List.filter_append, hsteps]

theorem normal_child {p : Path} {home place : List String} (h : p.normal home = some place)
    (name : String) : (p.child name).normal home = some (place ++ [name]) := by
  cases p with
  | nowhere => cases h
  | along start steps ending =>
    cases start <;> (obtain rfl := Option.some_inj.mp h; simp [child, normal])

end Path

namespace Tree

variable {t t' : Tree} {place found : List String} {steps : List String} {links : Nat} {s : String}

-- Nothing stands under a name twice, and no name stands for a path.
structure Plain (t : Tree) : Prop where
  distinct : (t.nodes.map Prod.fst).Nodup
  unlinked : ∀ entry ∈ t.nodes, ∀ target, entry.2 ≠ .link target

theorem node?_mem {node : Node} (h : t.node? place = some node) (hplace : place ≠ []) :
    (place, node) ∈ t.nodes := by
  simp only [node?, if_neg hplace, Option.map_eq_some_iff] at h
  obtain ⟨⟨other, found⟩, hfind, rfl⟩ := h
  obtain rfl : other = place := by simpa using List.find?_some hfind
  exact List.mem_of_find?_eq_some hfind

theorem Plain.node?_ne_link (h : t.Plain) (place : List String) (target : Path) :
    t.node? place ≠ some (.link target) := by
  intro hnode
  by_cases hplace : place = []
  · simp [node?, hplace] at hnode
  · exact h.unlinked _ (node?_mem hnode hplace) target rfl

-- Steps that lead nowhere back lead to the place that they spell.
theorem Plain.walk_eq (h : t.Plain) (hback : ".." ∉ steps)
    (hwalk : t.walk links place steps = .ok found) :
    found = place ++ steps.filter (· != ".") := by
  induction steps generalizing place with
  | nil =>
    unfold walk at hwalk
    simpa using (Except.ok.inj hwalk).symm
  | cons step rest ih =>
    have hrest : ".." ∉ rest := fun hmem => hback (List.mem_cons_of_mem _ hmem)
    unfold walk at hwalk
    by_cases hdot : step = "."
    · simp only [hdot, if_true] at hwalk ⊢
      simpa using ih hrest hwalk
    · have hup : step ≠ ".." := fun he => hback (he ▸ List.mem_cons_self)
      have hstep : (step :: rest).filter (· != ".") = step :: rest.filter (· != ".") := by
        simp [hdot]
      simp only [if_neg hdot, if_neg hup] at hwalk
      rw [hstep]
      split at hwalk
      · cases hwalk
      · split at hwalk
        · cases hwalk
        · simpa using ih hrest hwalk
        · split at hwalk
          · rename_i hlast
            simpa [hlast] using (Except.ok.inj hwalk).symm
          · cases hwalk
        · rename_i hlink
          exact absurd hlink (h.node?_ne_link _ _)

theorem Plain.walk_route (h : t.Plain) (hdot : "." ∉ steps) (hback : ".." ∉ steps)
    {ending : Path.Ending} (hwalk : t.walk links place (Path.route steps ending) = .ok found) :
    found = place ++ steps := by
  have hroute : ".." ∉ Path.route steps ending := by
    cases ending <;> simp [Path.route, hback]
  rw [h.walk_eq hroute hwalk, Path.route_filter hdot]

-- A path that leads nowhere back leads to the place that is its own as a name.
theorem Plain.normal_of_resolve (h : t.Plain) {p : Path} (hdot : "." ∉ p.steps)
    (hback : p.goesBack = false) (hresolve : t.resolve p = .ok place) :
    p.normal t.home = some place := by
  cases p with
  | nowhere => cases hresolve
  | along start steps ending =>
    have honward : ".." ∉ steps := by simpa [Path.goesBack, Path.steps] using hback
    cases start with
    | here => exact congrArg some (h.walk_route hdot honward hresolve).symm
    | root => exact congrArg some (h.walk_route hdot honward hresolve).symm
    | doubleRoot => exact congrArg some (h.walk_route hdot honward hresolve).symm

theorem Plain.normal_of_locate (h : t.Plain) (hlocate : t.locate s = .ok place)
    (hback : (Path.ofText s).goesBack = false) :
    (Path.ofText s).normal t.home = some place := by
  unfold locate at hlocate
  split at hlocate
  · cases hlocate
  · split at hlocate
    · cases hlocate
    · exact h.normal_of_resolve (Path.dot_not_mem_steps_ofText s) hback hlocate

theorem locate_of_directory (h : t.directory s = .ok place) : t.locate s = .ok place := by
  unfold directory at h
  split at h
  · cases h
  · rename_i found hfound
    split at h
    · rw [← Except.ok.inj h]
      exact hfound
    · cases h
    · cases h

theorem node?_eraseAll (t : Tree) (places : List (List String)) (hplace : place ≠ []) :
    (t.eraseAll places).node? place = if place ∈ places then none else t.node? place := by
  simp only [node?, eraseAll, if_neg hplace, List.find?_filter]
  split
  · rename_i hmem
    rw [Option.map_eq_none_iff, List.find?_eq_none]
    intro entry _
    by_cases he : entry.1 = place
    · simp [he, hmem]
    · simp [he]
  · rename_i hnot
    congr 1
    apply List.find?_congr
    intro entry _
    by_cases he : entry.1 = place
    · simp [he, hnot]
    · simp [he]

-- Nothing but files has been taken out of a tree.
structure Thins (t t' : Tree) : Prop where
  home : t'.home = t.home
  node : ∀ place, t'.node? place = t.node? place ∨
    t'.node? place = none ∧ ∃ size changed, t.node? place = some (.file size changed)

namespace Thins

theorem node?_eq (h : t.Thins t') {node : Node} (hnode : t.node? place = some node)
    (hfile : ∀ size changed, node ≠ .file size changed) : t'.node? place = some node := by
  rcases h.node place with hsame | ⟨-, size, changed, hgone⟩
  · exact hsame.trans hnode
  · exact absurd (Option.some_inj.mp (hnode.symm.trans hgone)) (hfile size changed)

-- On the way to a directory there are directories and links, and no files.
theorem walk_eq (h : t.Thins t') (hwalk : t.walk links place steps = .ok found)
    (hdir : t.node? found = some .directory) : t'.walk links place steps = .ok found := by
  fun_induction t.walk links place steps with
  | case1 links place =>
    unfold walk
    exact hwalk
  | case2 links place rest ih =>
    unfold walk
    simpa only [if_true] using ih hwalk
  | case3 links place rest hdot ih =>
    unfold walk
    simpa only [if_neg hdot, if_true] using ih hwalk
  | case6 links place step rest hdot hup hshort hnode ih =>
    have hstays := h.node?_eq hnode (by simp)
    unfold walk
    simpa only [if_neg hdot, if_neg hup, if_neg hshort, hstays] using ih hwalk
  | case7 links place step hdot hup hshort size changed hnode =>
    rw [← Except.ok.inj hwalk, hnode] at hdir
    cases hdir
  | case11 place step rest hdot hup hshort links more ending hnode ih =>
    have hstays := h.node?_eq hnode (by simp)
    unfold walk
    simpa only [if_neg hdot, if_neg hup, if_neg hshort, hstays] using ih hwalk
  | case12 place step rest hdot hup hshort links start more ending hstart hnode ih =>
    have hstays := h.node?_eq hnode (by simp)
    unfold walk
    simpa only [if_neg hdot, if_neg hup, if_neg hshort, hstays] using ih hwalk
  | case4 | case5 | case8 | case9 | case10 => cases hwalk

end Thins

end Tree

end Foreman
