import OrgForest.Error
import OrgForest.Store.Scan

/-!
# Calls of a store

What an action may ask of a store is data: a call, with the type of its answer. A store that nobody
disturbs performs a call at once; whether and in which surroundings a call takes place is decided by
who runs the action.
-/

namespace OrgForest

/-- A call of a store. -/
inductive StoreCall where
  | insert (o : Organization) (b : TenantBinding)
  | get (id : String)
  | exists (id : String)
  | named (name : String)
  | parentId (id : String)
  | childIds (id : String)
  | children (id : String)
  | update (o : Organization) (expected : UInt64)
  | delete (id : String)
  | scan (request : Scan)
  | structureVersion
  | bindingOf (id : String)
  | ownerOfDomain (domain : String)
  | ownerOfTenantId (id : Int64)

/-- The names of the calls. -/
inductive StoreMethod where
  | insert
  | get
  | exists
  | named
  | parentId
  | childIds
  | children
  | update
  | delete
  | scan
  | structureVersion
  | bindingOf
  | ownerOfDomain
  | ownerOfTenantId
deriving DecidableEq, Repr

namespace StoreCall

/-- The name of a call. -/
def method : StoreCall → StoreMethod
  | .insert _ _ => .insert
  | .get _ => .get
  | .exists _ => .exists
  | .named _ => .named
  | .parentId _ => .parentId
  | .childIds _ => .childIds
  | .children _ => .children
  | .update _ _ => .update
  | .delete _ => .delete
  | .scan _ => .scan
  | .structureVersion => .structureVersion
  | .bindingOf _ => .bindingOf
  | .ownerOfDomain _ => .ownerOfDomain
  | .ownerOfTenantId _ => .ownerOfTenantId

/-- Whether a call may change the store. -/
def isWrite (c : StoreCall) : Bool :=
  match c.method with
  | .insert => true
  | .update => true
  | .delete => true
  | _ => false

/-- What a call answers when it does not fail. -/
abbrev Answer : StoreCall → Type
  | .insert _ _ => InsertOutcome
  | .get _ => Option Organization
  | .exists _ => Bool
  | .named _ => List Organization
  | .parentId _ => Option (Option String)
  | .childIds _ => List String
  | .children _ => List Organization
  | .update _ _ => UpdateOutcome
  | .delete _ => DeleteOutcome
  | .scan _ => List Organization
  | .structureVersion => Nat
  | .bindingOf _ => Option TenantBinding
  | .ownerOfDomain _ => Option String
  | .ownerOfTenantId _ => Option String

end StoreCall

namespace Store

/-- Performs a call. -/
def perform (s : Store) : (c : StoreCall) → Except StoreError c.Answer × Store
  | .insert o b => let (outcome, s) := s.insert o b; (.ok outcome, s)
  | .get id => (.ok (s.organizations.get? id), s)
  | .exists id => (.ok (s.organizations.contains id), s)
  | .named name => (.ok (s.named name), s)
  | .parentId id => (.ok (s.parentId? id), s)
  | .childIds id => (.ok (s.childIds id), s)
  | .children id => (s.childrenOf id, s)
  | .update o expected => s.update o expected
  | .delete id => let (outcome, s) := s.delete id; (.ok outcome, s)
  | .scan r => (s.scan r, s)
  | .structureVersion => (.ok s.structureVersion, s)
  | .bindingOf id => (.ok (s.bindings.get? id), s)
  | .ownerOfDomain domain => (.ok (s.domains.get? domain), s)
  | .ownerOfTenantId id => (.ok (s.tenantIds.get? id), s)

end Store

/-- A change of a store, made by whom it may be. -/
inductive StoreChange where
  | insert (o : Organization) (b : TenantBinding)
  | update (o : Organization) (expected : UInt64)
  | delete (id : String)
  | clear
deriving DecidableEq

namespace Store

/-- Makes a change, or leaves the store as it is where the change is refused. -/
def change (s : Store) : StoreChange → Store
  | .insert o b => (s.insert o b).2
  | .update o expected => (s.update o expected).2
  | .delete id => (s.delete id).2
  | .clear => s.clear

end Store

end OrgForest
