/-!
# Chains of a forest

The chain of an organization runs from its root down to the organization itself, both included; the
chain of an unknown organization is empty. Depths and distances are read off chains. They are given
in signed words of 32 bits, which keep the low bits of a count.
-/

namespace OrgForest

/-- The ids from a root down. -/
abbrev Chain : Type := List String

namespace Chain

/-- What is given as the depth of an unknown organization. -/
def unknownDepth : Int32 := -1

/-- The number of links of a chain. -/
def depth : Chain → Int32
  | [] => unknownDepth
  | _ :: rest => .ofNat rest.length

/-- The number of links between the ends of two chains, if one chain goes on where the other
ends. -/
def distance? (a b : Chain) : Option Int32 :=
  if a.isEmpty || b.isEmpty then none
  else if a.isPrefixOf b then some (.ofNat (b.length - a.length))
  else if b.isPrefixOf a then some (.ofNat (a.length - b.length))
  else none

end Chain

end OrgForest
