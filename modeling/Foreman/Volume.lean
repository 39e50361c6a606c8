import Foreman.Files.Tree

namespace Foreman

structure Usage where
  total : Nat
  used : Nat
  deriving DecidableEq, Repr, Inhabited

namespace Usage

def percent (u : Usage) : Option Float :=
  if u.total = 0 then none
  else some (Float.ofNat u.used / Float.ofNat u.total * 100.0)

end Usage

-- Where figures about a volume come from: someone states them, they cannot be had,
-- or the volume itself is asked, which takes a path that leads to something.
inductive Probe where
  | stated (usage : Usage)
  | broken (cause : String)
  | measured (usage : Usage)
  deriving DecidableEq, Repr, Inhabited

namespace Probe

-- To a volume a null character in a path is an argument like any other that is no good.
def usage (probe : Probe) (t : Tree) (path : String) : Except String Usage :=
  match probe with
  | stated usage => .ok usage
  | broken cause => .error cause
  | measured usage => match t.locate path with
    | .ok _ => .ok usage
    | .error .severed => .error PathFault.invalid.message
    | .error fault => .error fault.message

end Probe

end Foreman
