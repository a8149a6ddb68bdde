import OrgForest.Store.Basic

/-!
# Scans

A scan takes the organizations of a scope that pass a filter and stand past a position, and gives
the first of them in the order of a listing.
-/

namespace OrgForest

/-- The organizations that a listing covers. -/
inductive Scope where
  | roots
  | all
  | childrenOf (id : String)
  | descendantsOf (id : String)
deriving DecidableEq, Repr

/-- What is asked of a scan. -/
structure Scan where
  scope : Scope
  filter : Option Filter
  key : SortKey
  order : SortOrder
  /-- Only organizations strictly past this position are wanted. -/
  after : Option Position
  limit : Nat
deriving DecidableEq

namespace Scan

/-- Whether an organization of the scope is wanted. -/
def wants (r : Scan) (o : Organization) : Bool :=
  r.after.all (fun p => o.standsPast p r.key r.order) && r.filter.all (·.holds o)

/-- Whether an organization may stand before another. -/
def inOrder (r : Scan) (a b : Organization) : Bool :=
  (Organization.compareIn r.key r.order a b).isLE

end Scan

namespace Store

/-- The organizations of a scope. -/
def inScope (s : Store) : Scope → Except StoreError (List Organization)
  | .roots => .ok (s.organizations.values.filter (·.isRoot))
  | .all => .ok s.organizations.values
  | .childrenOf id => s.recordsOf (s.childIds id)
  | .descendantsOf id => s.recordsOf (s.idsBelow id)

/-- The first organizations that a request wants, in its order. -/
def scan (s : Store) (r : Scan) : Except StoreError (List Organization) :=
  if r.limit = 0 then .ok []
  else do
    let found ← s.inScope r.scope
    return ((found.filter r.wants).mergeSort r.inOrder).take r.limit

end Store

end OrgForest
