import OrgForest.Filter.Expression
import OrgForest.Listing.Position
import OrgForest.Store.Error
import OrgForest.Table
import OrgForest.Tenant

/-!
# The store

A store keeps the records of the organizations by id, for every parent the set of its children in
the order of their creation, the tenant bindings with an index by domain and one by number, and a
count of the changes of structure. A change is made as a whole or not at all, and what a caller
can put right is reported as an outcome.

The walks of this module follow links within the records. They keep the ids they have met, so they
end on any records whatever, broken ones included.
-/

namespace OrgForest

/-- The place of a child among its siblings. -/
structure ChildKey where
  created : Timestamp
  id : String
deriving DecidableEq

namespace ChildKey

/-- By creation, then by id. -/
instance : Ord ChildKey where
  compare := compareLex (compareOn ChildKey.created) (compareOn ChildKey.id)

instance : Std.TransOrd ChildKey :=
  inferInstanceAs (Std.TransCmp (compareLex (compareOn ChildKey.created) (compareOn ChildKey.id)))

instance : Std.LawfulEqOrd ChildKey where
  eq_of_compare {a b} h := by
    obtain ⟨hc, hi⟩ := Ordering.then_eq_eq.1 h
    cases a; cases b
    simp only [compareOn, Std.compare_eq_iff_eq] at hc hi
    subst hc hi
    rfl

/-- The place of an organization among its siblings. -/
def of (o : Organization) : ChildKey := ⟨o.created, o.id⟩

end ChildKey

/-- The children of one parent. -/
abbrev ChildSet : Type := Table ChildKey Unit

/-- The tables of a store. -/
structure Store where
  organizations : Table String Organization
  children : Table String ChildSet
  bindings : Table String TenantBinding
  domains : Table String String
  tenantIds : Table Int64 String
  structureVersion : Nat
deriving DecidableEq

/-- How a new binding conflicts. -/
inductive BindingConflict where
  | otherOrganization (id : String)
  | alreadyBound
  | domainTaken (domain owner : String)
  | tenantIdTaken (id : Int64) (owner : String)
deriving DecidableEq, Repr

/-- The conflict in words. -/
def BindingConflict.message : BindingConflict → String
  | .otherOrganization id => s!"binding names organization '{id}'"
  | .alreadyBound => "organization already bound"
  | .domainTaken domain owner => s!"domain '{domain}' bound to '{owner}'"
  | .tenantIdTaken id owner => s!"tenant id {Tenant.writeId id} bound to '{owner}'"

/-- What became of an insertion. -/
inductive InsertOutcome where
  | inserted (stored : Organization)
  | parentMissing
  | duplicateId
  | tenantConflict (conflict : BindingConflict)
deriving DecidableEq

/-- What became of an update. -/
inductive UpdateOutcome where
  | updated (stored : Organization)
  | notFound
  | versionMismatch (actual : UInt64)
  | parentMissing
  | cycleDetected
deriving DecidableEq

/-- What became of a deletion. -/
inductive DeleteOutcome where
  | deleted (removed : Organization)
  | notFound
  | hasChildren (count : Nat)
deriving DecidableEq

/-- Counts of what a store holds. -/
structure StoreCounts where
  organizations : Nat
  roots : Nat
  bindings : Nat
  structureVersion : Nat
deriving DecidableEq, Repr

namespace Store

/-- The store that holds nothing and has seen no change. -/
def empty : Store := ⟨.empty, .empty, .empty, .empty, .empty, 0⟩

instance : Inhabited Store := ⟨empty⟩

/-! ## Links between records -/

/-- The children of an organization. -/
def childSet (s : Store) (id : String) : ChildSet := (s.children.get? id).getD .empty

/-- The ids of the children in order. -/
def childIds (s : Store) (id : String) : List String := (s.childSet id).keys.map (·.id)

/-- The parent of a record; none if there is no record. -/
def parentId? (s : Store) (id : String) : Option (Option String) :=
  (s.organizations.get? id).map (·.parentId)

/-- Puts a child under a parent. -/
def attach (children : Table String ChildSet) (parent : String) (o : Organization) :
    Table String ChildSet :=
  children.insert parent (((children.get? parent).getD .empty).insert (.of o) ())

/-- Takes a child away from a parent, and the parent away when that was its last child. -/
def detach (children : Table String ChildSet) (parent : String) (o : Organization) :
    Table String ChildSet :=
  match children.get? parent with
  | some set =>
    let rest := set.erase (.of o)
    if rest.isEmpty then children.erase parent else children.insert parent rest
  | none => children

/-- Whether `ancestor` is met on the way from an id up, given the ids met so far. A way that is
longer than there are records comes round again. -/
def climbsTo (s : Store) (ancestor : String) :
    Nat → List String → String → Except StoreError Bool
  | 0, _, id => .error (.corruption id "parent chain contains a cycle")
  | fuel + 1, met, id =>
    if id = ancestor then .ok true
    else if id ∈ met then .error (.corruption id "parent chain contains a cycle")
    else
      match (s.organizations.get? id).bind (·.parentId) with
      | some parent => s.climbsTo ancestor fuel (id :: met) parent
      | none => .ok false

/-- Whether `ancestor` is an id or lies above it. -/
def isOnChain (s : Store) (id ancestor : String) : Except StoreError Bool :=
  s.climbsTo ancestor (s.organizations.size + 2) [] id

/-- Takes ids from a queue, each once, and puts the children of each at its end. -/
def spread (s : Store) : Nat → List String → List String → List String
  | 0, _, _ => []
  | _, _, [] => []
  | fuel + 1, met, id :: queue =>
    if id ∈ met then s.spread fuel met queue
    else id :: s.spread fuel (id :: met) (queue ++ s.childIds id)

/-- The number of entries of the child index. -/
def linkCount (s : Store) : Nat := s.children.values.foldl (fun n set => n + set.size) 0

/-- The ids below an id, breadth first. -/
def idsBelow (s : Store) (id : String) : List String :=
  let children := s.childIds id
  s.spread (children.length + s.linkCount + 1) [] children

/-- The records of ids; every one of them has to be there. -/
def recordsOf (s : Store) (ids : List String) : Except StoreError (List Organization) :=
  ids.mapM fun id =>
    match s.organizations.get? id with
    | some o => .ok o
    | none => .error (.corruption id "child index points at a missing record")

/-! ## Changes -/

/-- How a binding conflicts with what the store holds, if it does. -/
def conflict? (s : Store) (id : String) (b : TenantBinding) : Option BindingConflict :=
  if b.organizationId ≠ id then some (.otherOrganization b.organizationId)
  else if s.bindings.contains id then some .alreadyBound
  else
    match s.domains.get? b.tenantDomain with
    | some owner => some (.domainTaken b.tenantDomain owner)
    | none => (s.tenantIds.get? b.tenantId).map (.tenantIdTaken b.tenantId)

/-- Whether a record's parent, if it has one, is in the store. -/
def hasParentOf (s : Store) (o : Organization) : Bool :=
  match o.parentId with
  | some parent => s.organizations.contains parent
  | none => true

/-- The children of all after a record has been put under its parent. -/
def linked (children : Table String ChildSet) (o : Organization) : Table String ChildSet :=
  match o.parentId with
  | some parent => attach children parent o
  | none => children

/-- The children of all after a record has been taken away from its parent. -/
def unlinked (children : Table String ChildSet) (o : Organization) : Table String ChildSet :=
  match o.parentId with
  | some parent => detach children parent o
  | none => children

/-- Inserts a new organization with its binding. It is stored without projections as version 1. -/
def insert (s : Store) (o : Organization) (b : TenantBinding) : InsertOutcome × Store :=
  if s.organizations.contains o.id then (.duplicateId, s)
  else if !s.hasParentOf o then (.parentMissing, s)
  else
    match s.conflict? o.id b with
    | some conflict => (.tenantConflict conflict, s)
    | none =>
      let stored := { o.bare with version := 1 }
      (.inserted stored, {
        organizations := s.organizations.insert stored.id stored
        children := linked s.children stored
        bindings := s.bindings.insert stored.id b
        domains := s.domains.insert b.tenantDomain stored.id
        tenantIds := s.tenantIds.insert b.tenantId stored.id
        structureVersion := s.structureVersion + 1 })

/-- Whether a record may be moved to a parent: the parent is there, and not below the record. -/
def moveOutcome (s : Store) (id : String) :
    Option String → Except StoreError (Option UpdateOutcome)
  | none => .ok none
  | some parent =>
    if !s.organizations.contains parent then .ok (some .parentMissing)
    else
      match s.isOnChain parent id with
      | .error e => .error e
      | .ok true => .ok (some .cycleDetected)
      | .ok false => .ok none

/-- Replaces a record of the expected version. Its creation time is kept, projections are not, and
the version counts up. -/
def update (s : Store) (o : Organization) (expected : UInt64) :
    Except StoreError UpdateOutcome × Store :=
  match s.organizations.get? o.id with
  | none => (.ok .notFound, s)
  | some existing =>
    if existing.version ≠ expected then (.ok (.versionMismatch existing.version), s)
    else
      -- The time of creation is part of the key in the index of children, so it never changes.
      let stored :=
        { o.bare with created := existing.created, version := expected + 1 }
      let organizations := s.organizations.insert stored.id stored
      if existing.parentId = o.parentId then (.ok (.updated stored), { s with organizations })
      else
        match s.moveOutcome existing.id o.parentId with
        | .error e => (.error e, s)
        | .ok (some refused) => (.ok refused, s)
        | .ok none =>
          (.ok (.updated stored), { s with
            organizations
            children := linked (unlinked s.children existing) stored
            structureVersion := s.structureVersion + 1 })

/-- Deletes a record that has no children, with its binding. -/
def delete (s : Store) (id : String) : DeleteOutcome × Store :=
  match s.organizations.get? id with
  | none => (.notFound, s)
  | some existing =>
    let count := (s.childSet id).size
    if 0 < count then (.hasChildren count, s)
    else
      -- The binding goes with its record, and so do both ways to find it.
      let binding := s.bindings.get? id
      (.deleted existing, {
        organizations := s.organizations.erase id
        children := unlinked s.children existing
        bindings := s.bindings.erase id
        domains := (binding.map fun b => s.domains.erase b.tenantDomain).getD s.domains
        tenantIds := (binding.map fun b => s.tenantIds.erase b.tenantId).getD s.tenantIds
        structureVersion := s.structureVersion + 1 })

/-- Drops everything. That is one change of structure. -/
def clear (s : Store) : Store := { empty with structureVersion := s.structureVersion + 1 }

/-! ## Look-ups -/

/-- The children of an organization in order. -/
def childrenOf (s : Store) (id : String) : Except StoreError (List Organization) :=
  s.recordsOf (s.childIds id)

/-- The organizations of exactly this name, the oldest first. -/
def named (s : Store) (name : String) : List Organization :=
  (s.organizations.values.filter (·.name == name)).mergeSort fun a b =>
    (compare (ChildKey.of a) (ChildKey.of b)).isLE

/-- Counts of what the store holds. -/
def counts (s : Store) : StoreCounts where
  organizations := s.organizations.size
  roots := (s.organizations.values.filter (·.isRoot)).length
  bindings := s.bindings.size
  structureVersion := s.structureVersion

end Store

end OrgForest
