import Foreman.Audit

namespace Foreman.Audit

-- What can be seen are the latest of the attempts reported.
def IsLatest (a : Audit) : Prop := a.kept = a.reported.drop (a.reported.length - a.capacity)

theorem isLatest_ofCapacity (n : Nat) : (ofCapacity n).IsLatest := List.drop_nil.symm

theorem IsLatest.length_records {a : Audit} (h : a.IsLatest) :
    a.records.length = min a.reported.length a.capacity := by
  rw [records, h, List.length_drop]
  omega

theorem IsLatest.push {a : Audit} (h : a.IsLatest) (r : AttemptRecord) : (a.push r).IsLatest := by
  have hlength := h.length_records
  have hkept : (a.push r).kept = a.keep r := rfl
  have hreported : (a.push r).reported = a.reported ++ [r] := rfl
  have hcapacity : (a.push r).capacity = a.capacity := rfl
  rw [records] at hlength
  rw [IsLatest, hkept, hreported, hcapacity, List.length_append, List.length_singleton, keep]
  split
  · rename_i hnone
    have hempty : a.kept = [] := List.eq_nil_of_length_eq_zero (by omega)
    rw [hempty, hnone, List.drop_eq_nil_of_le (by simp)]
  · split
    · -- The list of those seen moves on by one.
      have hmore : a.reported.length + 1 - a.capacity = a.reported.length - a.capacity + 1 := by
        omega
      rw [hmore, List.drop_append_of_le_length (by omega), ← List.tail_drop, ← h]
    · have hall : a.reported.length + 1 - a.capacity = 0 := by omega
      have hfits : a.reported.length - a.capacity = 0 := by omega
      rw [hall, h, hfits, List.drop_zero, List.drop_zero]

theorem reported_foldl_push (a : Audit) (rs : List AttemptRecord) :
    (rs.foldl push a).reported = a.reported ++ rs := by
  induction rs generalizing a with
  | nil => exact (List.append_nil _).symm
  | cons r rest ih =>
    rw [List.foldl_cons, ih]
    simp [push]

theorem capacity_foldl_push (a : Audit) (rs : List AttemptRecord) :
    (rs.foldl push a).capacity = a.capacity := by
  induction rs generalizing a with
  | nil => rfl
  | cons r rest ih => exact ih (a.push r)

theorem IsLatest.foldl_push {a : Audit} (h : a.IsLatest) (rs : List AttemptRecord) :
    (rs.foldl Audit.push a).IsLatest := by
  induction rs generalizing a with
  | nil => exact h
  | cons r rest ih => exact ih (h.push r)

-- What can be seen after these records, where nothing was reported before them.
theorem records_foldl_push (n : Nat) (rs : List AttemptRecord) :
    (rs.foldl push (ofCapacity n)).records = rs.drop (rs.length - n) := by
  have hlatest : (rs.foldl push (ofCapacity n)).IsLatest :=
    IsLatest.foldl_push (isLatest_ofCapacity n) rs
  rw [IsLatest, reported_foldl_push, capacity_foldl_push] at hlatest
  exact hlatest

end Foreman.Audit
