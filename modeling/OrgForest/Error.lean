import OrgForest.Listing.Cursor
import OrgForest.Patch.Operation
import OrgForest.Store.Basic

/-!
# Failures of the directory

A caller can put right a bad request, an unknown name or a conflict with what is stored. All other
failures are the server's: a store that fails, links that contradict each other, and changes that
came between the reading of a record and its writing.
-/

namespace OrgForest

/-- What is wrong with a request. -/
inductive BadRequest where
  | filter (fault : Filter.FilterError)
  | patch (fault : Patch.PatchError)
  | cursor (fault : Cursor.CursorError)
  | sortOrder (fault : SortOrder.Unknown)
  | tenantId (text : String)
  | blankName
  | nameTooLong (length limit : Nat)
  | blankAttributeKey
  | repeatedAttributeKey (key : String)
  | parentMissing (parent : String)
  | parentDisabled (parent : String)
  | tooDeep (depth limit : Nat)
  | newParentMissing (id : String)
  | movedBelowItself (id : String)
  | rootMoved (id : String)
  | detached (id : String)
  | otherHierarchy (id : String)
  | activatedBelowDisabled (id parent : String)
  | zeroPageLimit
  | bothCursors
  | noActingOrganization
  /-- A resolver refused the request in these words. -/
  | refused (message : String)

/-- What could not be found. -/
inductive NotFound where
  | organization (key : String)
  | tenantBinding (id : String)
  | tenantDomain (domain : String)
  | tenant (text : String)
deriving DecidableEq, Repr

/-- What a request conflicts with. -/
inductive Conflict where
  | nameTaken (name : String)
  | activeChildren (id : String) (count : Nat)
  | hasChildren (id : String) (count : Nat)
  | staleName (id actual given : String)
  | ambiguousName (name : String) (count : Nat)
deriving DecidableEq, Repr

/-- How the stored links contradict each other. -/
inductive Violation where
  | missingParent (child parent : String)
  | parentCycle (id met : String)
  | subtreeCycle (id met : String)
  | idInUse (id : String)
deriving DecidableEq, Repr

/-- Why an action of the directory failed. -/
inductive OrganizationError where
  | badRequest (fault : BadRequest)
  | notFound (what : NotFound)
  | conflict (cause : Conflict)
  | storage (failure : StoreError)
  | invariantViolation (violation : Violation)
  | concurrentModification (id : String) (expected actual : UInt64)
  | concurrentStructureChange (attempts : Nat)
  | tenantRebinding (organizationId : String) (cause : BindingConflict)
  | notOnSameBranch (first second : String)
  | provisioning (message : String)
  /-- A loop was cut off at the horizon that its surroundings set. -/
  | cutOff (horizon : Nat)

/-! ## Wording -/

namespace BadRequest

/-- The fault in words. -/
def message : BadRequest → String
  | .filter fault => fault.message
  | .patch fault => fault.message
  | .cursor fault => fault.message
  | .sortOrder fault => fault.message
  | .tenantId text => s!"Tenant id '{text}' is not numeric"
  | .blankName => "Organization name must not be blank"
  | .nameTooLong length limit =>
    s!"Organization name is {length} characters long, the limit is {limit}"
  | .blankAttributeKey => "Attribute keys must not be blank"
  | .repeatedAttributeKey key => s!"Duplicate attribute key '{key}'"
  | .parentMissing parent => s!"Parent organization '{parent}' does not exist"
  | .parentDisabled parent => s!"Parent organization '{parent}' is disabled"
  | .tooDeep depth limit => s!"Hierarchy depth {depth} would exceed the limit of {limit}"
  | .newParentMissing id => s!"New parent of organization '{id}' does not exist"
  | .movedBelowItself id => s!"Organization '{id}' cannot be moved below itself"
  | .rootMoved id => s!"Root organization '{id}' cannot be moved under a parent"
  | .detached id => s!"Organization '{id}' cannot be detached from its hierarchy"
  | .otherHierarchy id => s!"Organization '{id}' can only be moved within its own hierarchy"
  | .activatedBelowDisabled id parent =>
    s!"Organization '{id}' cannot be activated while its parent '{parent}' is disabled"
  | .zeroPageLimit => "Page limit must be greater than zero"
  | .bothCursors => "Only one of 'after' and 'before' may be given"
  | .noActingOrganization => "Request context names no organization to scope the hierarchy"
  | .refused message => message

end BadRequest

namespace NotFound

/-- What could not be found, in words. -/
def message : NotFound → String
  | .organization key => s!"Organization not found: {key}"
  | .tenantBinding id => s!"Tenant binding not found: {id}"
  | .tenantDomain domain => s!"Tenant domain not found: {domain}"
  | .tenant text => s!"Tenant not found: {text}"

end NotFound

namespace Conflict

/-- The conflict in words. -/
def message : Conflict → String
  | .nameTaken name => s!"An organization named '{name}' already exists"
  | .activeChildren id n =>
    s!"Organization '{id}' has {n} active child organization(s) and cannot be disabled"
  | .hasChildren id n =>
    s!"Organization '{id}' has {n} child organization(s) and cannot be deleted"
  | .staleName id actual given => s!"Organization '{id}' is named '{actual}', not '{given}'"
  | .ambiguousName name n => s!"Name '{name}' matches {n} organizations"

end Conflict

namespace Violation

/-- The contradiction in words. -/
def message : Violation → String
  | .missingParent child parent =>
    s!"organization '{child}' references missing parent '{parent}'"
  | .parentCycle id met => s!"parent chain of '{id}' contains a cycle at '{met}'"
  | .subtreeCycle id met => s!"subtree of '{id}' contains a cycle at '{met}'"
  | .idInUse id => s!"generated organization id '{id}' already exists"

end Violation

/-- Who can put a failure right, and how. -/
inductive ErrorKind where
  | badRequest
  | notFound
  | conflict
  | server
deriving DecidableEq, Repr

namespace OrganizationError

/-- The failure in words. -/
def message : OrganizationError → String
  | .badRequest fault => s!"Bad request: {fault.message}"
  | .notFound what => what.message
  | .conflict cause => s!"Conflict: {cause.message}"
  | .storage failure => s!"Storage error: {failure.message}"
  | .invariantViolation violation => s!"Hierarchy invariant violated: {violation.message}"
  | .concurrentModification id expected actual =>
    s!"Organization '{id}' was modified concurrently "
      ++ s!"(expected version {expected.toNat}, found {actual.toNat})"
  | .concurrentStructureChange attempts =>
    s!"Hierarchy changed during traversal after {attempts} attempts"
  | .tenantRebinding id cause =>
    s!"Tenant binding for organization '{id}' conflicts with an existing binding "
      ++ s!"({cause.message})"
  | .notOnSameBranch first second =>
    s!"Organizations '{first}' and '{second}' are not on the same branch"
  | .provisioning message => s!"Tenant provisioning failed: {message}"
  | .cutOff horizon => s!"Cut off after {horizon} rounds"

/-- The kind of a failure. -/
def kind : OrganizationError → ErrorKind
  | .badRequest _ => .badRequest
  | .notFound _ => .notFound
  | .conflict _ => .conflict
  | _ => .server

end OrganizationError

end OrgForest
