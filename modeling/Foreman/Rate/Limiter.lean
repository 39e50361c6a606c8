import Foreman.Rate.Bucket

namespace Foreman

structure Limiter (α : Type) where
  limits : List (String × Limit)
  fallback : Limit
  buckets : List ((String × String) × Bucket α)
  deriving Inhabited

namespace Limiter

variable {α : Type} [Quantity α]

def ofLimits (limits : List (String × Limit)) (fallback : Limit) : Limiter α :=
  ⟨limits, fallback, []⟩

-- A category of which nothing is said has the fallback limit.
def limitOf (l : Limiter α) (category : String) : Limit :=
  ((l.limits.find? (fun entry => entry.1 == category)).map Prod.snd).getD l.fallback

def bucket? (l : Limiter α) (key : String × String) : Option (Bucket α) :=
  (l.buckets.find? (fun entry => entry.1 == key)).map Prod.snd

def put (l : Limiter α) (key : String × String) (b : Bucket α) : Limiter α :=
  { l with buckets := l.buckets.filter (fun entry => entry.1 != key) ++ [(key, b)] }

def take (l : Limiter α) (caller category : String) (now : Nat) : Decision α × Limiter α :=
  let b := (l.bucket? (caller, category)).getD (Bucket.ofLimit (l.limitOf category) now)
  let (decision, b) := b.take now
  (decision, l.put (caller, category) b)

def dropFull (l : Limiter α) (now : Nat) : Limiter α :=
  let filled := l.buckets.map (fun entry => (entry.1, entry.2.topUp now))
  { l with buckets := filled.filter (fun entry => !entry.2.isFull) }

def size (l : Limiter α) : Nat := l.buckets.length

end Limiter

end Foreman
