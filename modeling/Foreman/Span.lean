namespace Foreman

structure Span where
  secs : Nat
  nanos : Nat
  deriving DecidableEq, Repr, Inhabited

namespace Span

-- Seconds are counted in 64 bits; a longer time counts as the longest.
def maxSecs : Nat := 18446744073709551615

-- Thirty years of 365 days. No sleep lasts longer, and a time that cannot be told comes then.
def farSecs : Nat := 946080000

-- A running clock does not get as far as this many seconds.
def clockSecs : Nat := 9223372036854000000

-- A time that a running clock gets to.
def InRange (time : Nat) : Prop := time < clockSecs * 1000

instance (time : Nat) : Decidable (InRange time) :=
  inferInstanceAs (Decidable (time < clockSecs * 1000))

def zero : Span := ⟨0, 0⟩

def ofSecs (n : Nat) : Span := ⟨n, 0⟩

def ofMillis (n : Nat) : Span := ⟨n / 1000, n % 1000 * 1000000⟩

def ofNanos (n : Nat) : Span := ⟨n / 1000000000, n % 1000000000⟩

def ofHours (n : Nat) : Span := ⟨min (n * 3600) maxSecs, 0⟩

def toMillis (s : Span) : Nat := s.secs * 1000 + s.nanos / 1000000

-- When someone wakes who falls asleep at `now` for so long, all in milliseconds.
def wakeAfter (now millis : Nat) : Nat := now + min millis (farSecs * 1000)

def roundAfter (s : Span) (now : Nat) : Nat :=
  if InRange (now + s.toMillis) then now + s.toMillis else now + farSecs * 1000

end Span

end Foreman
