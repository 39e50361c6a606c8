namespace Foreman.Text

def digitChar (d : Nat) : Char := if d < 10 then Char.ofNat (48 + d) else Char.ofNat (87 + d)

def digit? (c : Char) : Option Nat :=
  if '0' ≤ c ∧ c ≤ '9' then some (c.toNat - 48) else none

def hexDigit? (c : Char) : Option Nat :=
  if '0' ≤ c ∧ c ≤ '9' then some (c.toNat - 48)
  else if 'a' ≤ c ∧ c ≤ 'f' then some (c.toNat - 87)
  else if 'A' ≤ c ∧ c ≤ 'F' then some (c.toNat - 55)
  else none

def ofDigits (base : Nat) (ds : List Nat) : Nat := ds.foldl (fun acc d => acc * base + d) 0

def toDigits (base : Nat) (n : Nat) : List Nat :=
  if _ : n < base ∨ base < 2 then [n] else toDigits base (n / base) ++ [n % base]
  termination_by n
  decreasing_by exact Nat.div_lt_self (by omega) (by omega)

def decimal (n : Nat) : List Char := (toDigits 10 n).map digitChar

def ofNat (n : Nat) : String := String.ofList (decimal n)

def leadingDigits (cs : List Char) : List Nat × List Char :=
  ((cs.takeWhile (fun c => (digit? c).isSome)).filterMap digit?,
    cs.dropWhile (fun c => (digit? c).isSome))

theorem ofDigits_append_one (base : Nat) (ds : List Nat) (d : Nat) :
    ofDigits base (ds ++ [d]) = ofDigits base ds * base + d := by
  simp [ofDigits]

theorem ofDigits_toDigits (base n : Nat) : ofDigits base (toDigits base n) = n := by
  fun_induction toDigits base n with
  | case1 n _ => simp [ofDigits]
  | case2 n _ ih =>
    rw [ofDigits_append_one, ih, Nat.mul_comm]
    exact Nat.div_add_mod n base

theorem lt_of_mem_toDigits {base n d : Nat} (hbase : 2 ≤ base) (h : d ∈ toDigits base n) :
    d < base := by
  fun_induction toDigits base n with
  | case1 n hn =>
    simp only [List.mem_singleton] at h
    omega
  | case2 n _ ih =>
    rcases List.mem_append.1 h with hd | hd
    · exact ih hd
    · simp only [List.mem_singleton] at hd
      rw [hd]
      exact Nat.mod_lt n (by omega)

theorem digit?_digitChar {d : Nat} (h : d < 10) : digit? (digitChar d) = some d := by
  have hall : ∀ d : Fin 10, digit? (digitChar d) = some d.val := by decide
  exact hall ⟨d, h⟩

theorem hexDigit?_digitChar {d : Nat} (h : d < 16) : hexDigit? (digitChar d) = some d := by
  have hall : ∀ d : Fin 16, hexDigit? (digitChar d) = some d.val := by decide
  exact hall ⟨d, h⟩

end Foreman.Text
