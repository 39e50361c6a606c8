import Foreman.Config.Basic
import Foreman.Rate.Quantity

namespace Foreman

-- What a caller is told. One who is turned away learns in how many seconds there will be
-- a token, if there ever will be.
structure Decision (α : Type) where
  allowed : Bool
  wait : Option α
  deriving Inhabited, Repr

-- A bucket of tokens that fills steadily up to its capacity. `filled` is the time at which
-- the tokens were last counted, in nanoseconds.
structure Bucket (α : Type) where
  capacity : α
  perSecond : α
  tokens : α
  filled : Nat
  deriving Inhabited, Repr

namespace Bucket

variable {α : Type} [Quantity α]

open Quantity (ofNat clamp)

def ofLimit (limit : Limit) (now : Nat) : Bucket α where
  capacity := ofNat limit.burst
  perSecond := ofNat limit.perMinute / ofNat 60
  tokens := ofNat limit.burst
  filled := now

def seconds (span : Span) : α := ofNat span.secs + ofNat span.nanos / ofNat 1000000000

-- The tokens as of now. Time that goes back brings no tokens and takes none.
def topUp (b : Bucket α) (now : Nat) : Bucket α :=
  { b with
    tokens := clamp (ofNat 0) b.capacity
      (b.tokens + seconds (Span.ofNanos (now - b.filled)) * b.perSecond)
    filled := now }

def untilToken (b : Bucket α) : Option α :=
  if ofNat 0 < b.perSecond then some ((ofNat 1 - b.tokens) / b.perSecond) else none

def take (b : Bucket α) (now : Nat) : Decision α × Bucket α :=
  let b := b.topUp now
  if b.tokens < ofNat 1 then (⟨false, b.untilToken⟩, b)
  else (⟨true, some (ofNat 0)⟩, { b with tokens := b.tokens - ofNat 1 })

def isFull (b : Bucket α) : Bool := !decide (b.tokens < b.capacity)

end Bucket

end Foreman
