namespace Foreman

def twos (n : Nat) : Nat := Nat.pow 2 n

def tens (n : Nat) : Nat := Nat.pow 10 n

theorem twos_succ (n : Nat) : twos (n + 1) = 2 * twos n := Nat.mul_comm (twos n) 2

theorem twos_pos (n : Nat) : 0 < twos n := by
  induction n with
  | zero => decide
  | succ n ih => rw [twos_succ]; omega

theorem twos_le_twos {m n : Nat} (h : m ≤ n) : twos m ≤ twos n := by
  induction h with
  | refl => exact Nat.le_refl _
  | step _ ih => rw [twos_succ]; omega

end Foreman
