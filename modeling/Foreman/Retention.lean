import Foreman.Config.Basic
import Foreman.Decimal.Power
import Foreman.Files.Tree
import Foreman.Registry
import Foreman.Volume

namespace Foreman

structure SweepReport where
  deleted : Nat
  reclaimed : Nat
  preserved : Nat
  deriving DecidableEq, Repr, Inhabited

namespace RetentionRules

def directory (r : RetentionRules) : Path := Path.ofText r.outputDir

def isHidden (name : String) : Bool := name.toList.head? == some '.'

-- How old a file is, in milliseconds. One from the future has no age.
def ageOf (now changed : Int) : Nat := (now - changed).toNat

def isDoomed (r : RetentionRules) (registry : Registry) (now : Int) (name : String)
    (changed : Int) : Bool :=
  r.age.toMillis ≤ ageOf now changed && !registry.isClaimed (r.directory.child name)

def files (entries : List (String × Node)) : List (String × Nat × Int) :=
  entries.filterMap fun (name, node) => match node with
    | .file size changed => if isHidden name then none else some (name, size, changed)
    | _ => none

-- Sizes are added up in 64 bits, and what a sum has beyond them is lost.
def totalSize (found : List (String × Nat × Int)) : Nat :=
  found.foldr (fun (_, size, _) total => (size + total) % twos 64) 0

def sweep (r : RetentionRules) (registry : Registry) (t : Tree) (now : Int) (dryRun : Bool) :
    Except PathFault (SweepReport × Tree) :=
  match t.directory r.outputDir with
  | .error .missing => .ok (⟨0, 0, 0⟩, t)
  | .error fault => .error fault
  | .ok place =>
    let found := files (t.entries place)
    let doomed := found.filter (fun (name, _, changed) => r.isDoomed registry now name changed)
    .ok (⟨doomed.length, totalSize doomed,
        found.length - doomed.length⟩,
      if dryRun then t else t.eraseAll (doomed.map (fun (name, _) => place ++ [name])))

-- The volume of the output directory is as full as the threshold, or fuller. One that
-- cannot be asked is not.
def hasPressure (r : RetentionRules) (probe : Probe) (t : Tree) : Bool :=
  match probe.usage t r.outputDir with
  | .error _ => false
  | .ok usage => usage.percent.any (fun percent => r.threshold ≤ percent)

end RetentionRules

end Foreman
