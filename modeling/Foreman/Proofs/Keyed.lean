import Mathlib.Data.List.Perm.Basic
import Mathlib.Data.List.Nodup

namespace Foreman.Keyed

variable {α β : Type} [BEq β] [LawfulBEq β] {key : α → β} {entries : List α} {a : α}

-- In a list whose entries have different keys, an entry is all that its key takes away.
theorem perm_cons_filter (hkeys : (entries.map key).Nodup) (ha : a ∈ entries) :
    entries.Perm (a :: entries.filter (fun b => key b != key a)) := by
  induction entries with
  | nil => simp at ha
  | cons first rest ih =>
    obtain ⟨hfirst, hrest⟩ := List.nodup_cons.mp hkeys
    rcases List.mem_cons.mp ha with rfl | ha
    · have hall : rest.filter (fun b => key b != key a) = rest := by
        rw [List.filter_eq_self]
        intro b hb
        simp only [bne_iff_ne, ne_eq]
        exact fun he => hfirst (he ▸ List.mem_map_of_mem hb)
      simp [hall]
    · have hne : key first ≠ key a := fun he => hfirst (he ▸ List.mem_map_of_mem ha)
      rw [List.filter_cons_of_pos (by simpa using hne)]
      exact ((ih hrest ha).cons first).trans (List.Perm.swap a first _)

theorem length_filter_ne (hkeys : (entries.map key).Nodup) (ha : a ∈ entries) :
    (entries.filter (fun b => key b != key a)).length + 1 = entries.length := by
  simpa using (perm_cons_filter hkeys ha).length_eq.symm

-- Looking for a key finds the entry that has it.
theorem find?_key (hkeys : (entries.map key).Nodup) (ha : a ∈ entries) :
    entries.find? (fun b => key b == key a) = some a := by
  induction entries with
  | nil => simp at ha
  | cons first rest ih =>
    obtain ⟨hfirst, hrest⟩ := List.nodup_cons.mp hkeys
    rcases List.mem_cons.mp ha with rfl | ha
    · simp
    · have hne : key first ≠ key a := fun he => hfirst (he ▸ List.mem_map_of_mem ha)
      rw [List.find?_cons_of_neg (by simpa using hne)]
      exact ih hrest ha

theorem filter_key (hkeys : (entries.map key).Nodup) (ha : a ∈ entries) :
    entries.filter (fun b => key b == key a) = [a] := by
  induction entries with
  | nil => simp at ha
  | cons first rest ih =>
    obtain ⟨hfirst, hrest⟩ := List.nodup_cons.mp hkeys
    rcases List.mem_cons.mp ha with rfl | ha
    · rw [List.filter_cons_of_pos (by simp), List.cons_inj_right, List.filter_eq_nil_iff]
      intro b hb he
      rw [← beq_iff_eq.mp he] at hfirst
      exact hfirst (List.mem_map_of_mem hb)
    · have hne : key first ≠ key a := fun he => hfirst (he ▸ List.mem_map_of_mem ha)
      rw [List.filter_cons_of_neg (by simpa using hne)]
      exact ih hrest ha

-- Looking for a key among the chosen entries is looking for it and then choosing.
theorem find?_filter (hkeys : (entries.map key).Nodup) (chosen : α → Bool) (k : β) :
    (entries.filter chosen).find? (fun b => key b == k) =
      (entries.find? (fun b => key b == k)).filter chosen := by
  induction entries with
  | nil => rfl
  | cons first rest ih =>
    obtain ⟨hfirst, hrest⟩ := List.nodup_cons.mp hkeys
    have ih := ih hrest
    by_cases hk : key first = k
    · rw [List.find?_cons_of_pos (by simpa using hk)]
      cases hchosen : chosen first with
      | true =>
        rw [List.filter_cons_of_pos hchosen, List.find?_cons_of_pos (by simpa using hk)]
        simp [Option.filter, hchosen]
      | false =>
        have hnone : rest.find? (fun b => key b == k) = none := by
          rw [List.find?_eq_none]
          intro b hb he
          rw [hk, ← beq_iff_eq.mp he] at hfirst
          exact hfirst (List.mem_map_of_mem hb)
        rw [List.filter_cons_of_neg (by simp [hchosen]), ih, hnone]
        simp [Option.filter, hchosen]
    · rw [List.find?_cons_of_neg (by simpa using hk), ← ih, List.filter_cons]
      split
      · rw [List.find?_cons_of_neg (by simpa using hk)]
      · rfl

end Foreman.Keyed
