import Mathlib.Data.List.Induction

namespace Foreman

variable {α : Type} {happened : List α → α → Prop} {held : List α → Prop} {run : List α} {last : α}

-- At some step of a run something happened, and after that step and ever since something else has
-- held. Both may depend on what came before.
def Since (happened : List α → α → Prop) (held : List α → Prop) (run : List α) : Prop :=
  ∃ earlier step later, run = earlier ++ step :: later ∧ happened earlier step ∧
    ∀ middle rest, later = middle ++ rest → held (earlier ++ step :: middle)

theorem not_since_nil : ¬ Since happened held [] := by
  rintro ⟨earlier, step, later, hrun, -⟩
  simp at hrun

theorem since_concat_iff : Since happened held (run ++ [last]) ↔
    (Since happened held run ∨ happened run last) ∧ held (run ++ [last]) := by
  constructor
  · rintro ⟨earlier, step, later, hrun, hhappened, hheld⟩
    have hwhole : held (run ++ [last]) := by
      rw [hrun]
      exact hheld later [] (List.append_nil later).symm
    refine ⟨?_, hwhole⟩
    rcases List.eq_nil_or_concat later with rfl | ⟨later, final, rfl⟩
    · obtain ⟨rfl, hsame⟩ := List.append_inj' hrun rfl
      obtain rfl := List.singleton_inj.mp hsame
      exact .inr hhappened
    · rw [List.concat_eq_append, ← List.cons_append, ← List.append_assoc] at hrun
      obtain ⟨rfl, -⟩ := List.append_inj' hrun rfl
      refine .inl ⟨earlier, step, later, rfl, hhappened, fun middle rest hlater => ?_⟩
      exact hheld middle (rest ++ [final]) (by simp [hlater])
  · rintro ⟨⟨earlier, step, later, rfl, hhappened, hheld⟩ | hhappened, hwhole⟩
    · refine ⟨earlier, step, later ++ [last], by simp, hhappened, fun middle rest hlater => ?_⟩
      rcases List.eq_nil_or_concat rest with rfl | ⟨rest, final, rfl⟩
      · rw [List.append_nil] at hlater
        rw [← hlater, ← List.cons_append, ← List.append_assoc]
        exact hwhole
      · rw [List.concat_eq_append, ← List.append_assoc] at hlater
        obtain ⟨hlater, -⟩ := List.append_inj' hlater rfl
        exact hheld middle rest hlater
    · refine ⟨run, last, [], rfl, hhappened, fun middle rest hnil => ?_⟩
      obtain ⟨rfl, rfl⟩ := List.append_eq_nil_iff.mp hnil.symm
      exact hwhole

-- What begins only when something happens, and lasts as long as something else holds.
theorem iff_since (holds : List α → Prop) (hnil : ¬ holds [])
    (hstep : ∀ before last, before ++ [last] <+: run →
      (holds (before ++ [last]) ↔
        (holds before ∨ happened before last) ∧ held (before ++ [last]))) :
    holds run ↔ Since happened held run := by
  induction run using List.reverseRecOn with
  | nil => exact ⟨fun h => absurd h hnil, fun h => absurd h not_since_nil⟩
  | append_singleton run last ih =>
    have hbefore := ih fun before other hearlier =>
      hstep before other (hearlier.trans (List.prefix_append run [last]))
    rw [since_concat_iff, ← hbefore]
    exact hstep run last List.prefix_rfl

end Foreman
