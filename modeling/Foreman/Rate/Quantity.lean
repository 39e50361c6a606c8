namespace Foreman

class Quantity (α : Type) extends Add α, Sub α, Mul α, Div α, LT α where
  ofNat : Nat → α
  decideLT : (a b : α) → Decidable (a < b)

namespace Quantity

instance (α : Type) [Quantity α] : DecidableLT α := Quantity.decideLT

instance : Quantity Float where
  ofNat := Float.ofNat
  decideLT := Float.decLt

instance : Quantity Rat where
  ofNat := fun n => (n : Rat)
  decideLT := inferInstanceAs (DecidableLT Rat)

variable {α : Type} [Quantity α]

def clamp (low high a : α) : α :=
  if a < low then low else if high < a then high else a

end Quantity

end Foreman
