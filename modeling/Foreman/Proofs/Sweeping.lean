import Foreman.Proofs.Retention

namespace Foreman

namespace Tree

-- No name is used twice.
def Distinct (t : Tree) : Prop := (t.nodes.map Prod.fst).Nodup

end Tree

namespace RetentionRules

variable {r : RetentionRules} {registry : Registry} {t t' : Tree} {now : Int}
  {place dir : List String} {name : String} {size : Nat} {changed : Int} {report : SweepReport}

-- The places for which something holds, each of them once.
def Lists (places : List (List String)) (p : List String → Prop) : Prop :=
  places.Nodup ∧ ∀ place, place ∈ places ↔ p place

theorem Lists.length_eq {places others : List (List String)} {p : List String → Prop}
    (h : Lists places p) (h' : Lists others p) : places.length = others.length :=
  ((List.perm_ext_iff_of_nodup h.1 h'.1).mpr fun place =>
    (h.2 place).trans (h'.2 place).symm).length_eq

section

variable (r registry now dir) (hdistinct : t.Distinct)
include hdistinct

end

end RetentionRules

end Foreman
