import OrgForest.Directory.Naming

/-!
# Look-ups in a directory

Questions about single organizations: whether they are there, how a name and an id belong together,
where they stand in the forest, and which tenant they are bound to.
-/

namespace OrgForest.Directory

/-! ## Names and ids -/

/-- Whether any organization has a name, blanks around it aside. -/
def nameExists (name : String) : Action Bool :=
  return !(← Action.call (.named (Text.trimmed name))).isEmpty

/-- Whether a name is in use in the hierarchy in which the caller acts. -/
def nameExistsInHierarchy (d : Directory) (caller : Caller) (name : String) :
    Action Bool := do
  match ← d.scopeRoot caller with
  | none => throw (.badRequest .noActingOrganization)
  | some root => return !(← d.idsByName (Text.trimmed name) root).isEmpty

/-- Whether a name is in use in the hierarchy in which the caller acts; a failure counts as no. -/
def nameIsKnownInHierarchy (d : Directory) (caller : Caller) (name : String) :
    Action Bool := do
  match ← (d.nameExistsInHierarchy caller name).attempt with
  | .ok found => return found
  | .error _ => return false

/-- Whether there is an organization of an id. -/
def idExists (id : String) : Action Bool := Action.call (.exists id)

/-- The only id of a name, within the hierarchy in which the caller acts, if in any. -/
def idOfName (d : Directory) (caller : Caller) (name : String) : Action String := do
  let name := Text.trimmed name
  let ids ← match ← d.scopeRoot caller with
    | some root => d.idsByName name root
    | none => do pure ((← Action.call (.named name)).map (·.id))
  match ids with
  | [] => throw (.notFound (.organization name))
  | [id] => return id
  | ids => throw (.conflict (.ambiguousName name ids.length))

/-- The name of an id. -/
def nameOfId (id : String) : Action String := return (← load id).name

/-- The organizations of a name, the oldest first. -/
def organizationsNamed (name : String) : Action (List Organization) :=
  Action.call (.named (Text.trimmed name))

/-! ## One organization and those below it -/

/-- An organization with what the reader wants to see beside its record. -/
def get (id : String) (options : View) : Action Organization := do
  let o ← load id
  let o ←
    if options.children then do
      pure { o with children := (← Action.call (.children id)).map (·.childReference) }
    else pure o
  if options.permissions then return { o with permissions := ← Action.permissions id } else return o

/-- The children of an organization, or all below it, level by level. -/
def children (d : Directory) (id : String) (recursive : Bool) :
    Action (List BasicOrganization) := do
  requireExists id
  return (← Hierarchy.below d.config.walkRetryLimit id recursive).map (·.basic)

/-- The ids of the children of an organization. -/
def childIds (id : String) : Action (List String) := do
  requireExists id
  Action.call (.childIds id)

/-! ## Those above it -/

/-- The ids from the root down to an organization; none for an unknown one. -/
def ancestors (d : Directory) (id : String) : Action Chain := d.chainOf id

/-- The depth of an organization. -/
def depth (d : Directory) (id : String) : Action Int32 :=
  Hierarchy.depth d.config.walkRetryLimit id

/-- The number of links between two organizations of one branch. -/
def distance (d : Directory) (first second : String) : Action Int32 :=
  Hierarchy.distance d.config.walkRetryLimit first second

/-- The parent of an organization. -/
def parent (id : String) : Action (Option String) := Hierarchy.parentOf id

/-! ## Tenants -/

/-- The tenant of an organization. -/
def binding (id : String) : Action TenantBinding := do
  match ← Action.call (.bindingOf id) with
  | some b => return b
  | none => throw (.notFound (.tenantBinding id))

/-- The tenant domain of an organization. -/
def tenantDomain (id : String) : Action String := return (← binding id).tenantDomain

/-- The tenant number of an organization, in writing. -/
def tenantId (id : String) : Action String := return Tenant.writeId (← binding id).tenantId

/-- The organization of a tenant domain. -/
def organizationOfDomain (domain : String) : Action String := do
  match ← Action.call (.ownerOfDomain domain) with
  | some id => return id
  | none => throw (.notFound (.tenantDomain domain))

/-- The tenant number that a request spells. -/
def readTenantId (text : String) : Except BadRequest Int64 :=
  match Tenant.readId? text with
  | some id => .ok id
  | none => .error (.tenantId text)

/-- The organization of a tenant number in writing. -/
def organizationOfTenant (text : String) : Action String := do
  let number ← Action.check (readTenantId text)
  match ← Action.call (.ownerOfTenantId number) with
  | some id => return id
  | none => throw (.notFound (.tenant text))

end OrgForest.Directory
