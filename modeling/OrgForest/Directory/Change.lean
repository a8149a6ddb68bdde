import OrgForest.Directory.Naming
import OrgForest.Locks
import OrgForest.Patch.Apply

/-!
# Changes of a directory

Every change reads what it has to know, refuses what would break a rule, and ends with one write
of the store. The write names the version that was read, so a record that was changed in between
is not overwritten. A change that would leave a record as it is writes nothing.

The rules: names are unique in their scope; below a disabled organization none is active; no
organization is deeper than the limit; a root stays a root, and any other organization stays in its
hierarchy and never comes below itself.

* `Directory.add`, `Directory.patch`, `Directory.update`, `Directory.delete` — the changes.
-/

namespace OrgForest.Directory

/-! ## Parents -/

/-- Refuses a parent that is missing, disabled, or so deep that `extra` levels below its new child
would exceed the limit. Gives the root of the parent's hierarchy. -/
def vetParent (d : Directory) (parent : String) (extra : Nat) : Action String := do
  match ← Action.call (.get parent) with
  | none => throw (.badRequest (.parentMissing parent))
  | some o =>
    if !o.isActive then throw (.badRequest (.parentDisabled parent))
    else
      let chain ← d.chainOf parent
      match chain with
      | [] => throw (.badRequest (.parentMissing parent))
      | root :: _ =>
        let deepest := chain.length + extra
        match d.config.maxDepth with
        | none => return root
        | some limit =>
          if limit < deepest then throw (.badRequest (.tooDeep deepest limit)) else return root

/-- Reads the parent, then the record, until the two agree. Gives the ids whose locks are held then,
and the record. -/
def holdRound (id : String) : Action (Unit ⊕ (List String × Organization)) := do
  let parent := (← Action.call (.parentId id)).join
  let held := LockTable.plan (id :: parent.toList)
  let current ← load id
  if current.parentId = parent then return .inr (held, current) else return .inl ()

/-- Locks an organization together with its parent. -/
def holdWithParent (id : String) : Action (List String × Organization) :=
  Action.iterate (fun _ => holdRound id) ()

/-- Refuses to activate an organization below a disabled parent. -/
def requireActiveParent (id parent : String) : Action Unit := do
  let o ← load parent
  if o.isActive then return () else throw (.badRequest (.activatedBelowDisabled id parent))

/-- Refuses to disable an organization above active children. -/
def requireNoActiveChildren (id : String) : Action Unit := do
  let active := ((← Action.call (.children id)).filter (·.isActive)).length
  if active = 0 then return () else throw (.conflict (.activeChildren id active))

/-! ## Writing -/

/-- Writes a record over the version that was read. -/
def write (candidate : Organization) (expected : UInt64) : Action Organization := do
  match ← Action.call (.update candidate expected) with
  | .updated stored => return stored
  | .notFound => throw (.notFound (.organization candidate.id))
  | .versionMismatch actual => throw (.concurrentModification candidate.id expected actual)
  | .parentMissing => throw (.badRequest (.newParentMissing candidate.id))
  | .cycleDetected => throw (.badRequest (.movedBelowItself candidate.id))

/-- Refuses a new name that is taken. -/
def requireFreeName (d : Directory) (id : String) (current candidate : Organization) :
    Action Unit := do
  let root ← d.rootOf id
  if ← d.isTaken candidate.name root current.isRoot (some id) then
    throw (.conflict (.nameTaken candidate.name))

/-- Refuses a change of the status that would leave an active organization below a disabled one. -/
def vetStatus (id : String) (current candidate : Organization) : Action Unit := do
  if current.isActive && !candidate.isActive then requireNoActiveChildren id
  if !current.isActive && candidate.isActive then
    match candidate.parentId with
    | some parent => requireActiveParent id parent
    | none => return ()

/-! ## The changes -/

/-- What an insertion means for the organization that was to be added. -/
def insertResult (candidate : Organization) : InsertOutcome → Except OrganizationError Organization
  | .inserted stored => .ok stored
  | .parentMissing => .error (.badRequest (.parentMissing (candidate.parentId.getD "")))
  | .duplicateId => .error (.invariantViolation (.idInUse candidate.id))
  | .tenantConflict conflict => .error (.tenantRebinding candidate.id conflict)

/-- Adds an organization under a fresh id, and binds it to a tenant. -/
def add (d : Directory) (now : Timestamp) (fresh : String) (o : Organization) :
    Action Organization := do
  let name ← Action.check (d.validName o.name)
  Action.check (validAttributes o.attributes)
  let root ← match o.parentId with
    | some parent => some <$> d.vetParent parent 0
    | none => pure none
  if ← d.isTaken name root o.isRoot none then throw (.conflict (.nameTaken name))
  let candidate := { o.bare with
    id := fresh
    name
    created := now
    lastModified := now
    version := 0 }
  let binding ← Action.provision candidate
  MonadExcept.ofExcept (insertResult candidate (← Action.call (.insert candidate binding)))

/-- Applies a patch to an organization. -/
def patch (d : Directory) (now : Timestamp) (id : String) (ops : List Patch.Operation) :
    Action Organization := do
  let (_, current) ← holdWithParent id
  let candidate ← Action.check ((Patch.apply ops current).mapError .patch)
  -- A patch without effect is no write, so neither the version nor the time of change moves.
  if candidate.agreesWith current then return current
  let candidate ←
    if candidate.name = current.name then pure candidate
    else do
      let name ← Action.check (d.validName candidate.name)
      let candidate := { candidate with name }
      d.requireFreeName id current candidate
      pure candidate
  vetStatus id current candidate
  write { candidate with lastModified := now } current.version

/-- Refuses to move an organization to a parent where it must not stand. -/
def vetMove (d : Directory) (current : Organization) (parent : Option String) : Action Unit := do
  match parent with
  | none => if current.isRoot then return () else throw (.badRequest (.detached current.id))
  | some parent =>
    if current.isRoot then throw (.badRequest (.rootMoved current.id))
    -- An organization is not above itself, so this case is asked for on its own.
    let below ←
      if parent = current.id then pure true
      else Hierarchy.isAbove d.config.walkRetryLimit current.id parent
    if below then throw (.badRequest (.movedBelowItself current.id))
    let height ← Hierarchy.heightOf d.config.walkRetryLimit current.id
    let newRoot ← d.vetParent parent height
    if (← d.rootOf current.id) ≠ some newRoot then
      throw (.badRequest (.otherHierarchy current.id))

/-- Replaces what can be edited of an organization, which the caller knows under its name. -/
def update (d : Directory) (now : Timestamp) (id currentName : String) (o : Organization) :
    Action Organization := do
  let name ← Action.check (d.validName o.name)
  Action.check (validAttributes o.attributes)
  let current ← load id
  if current.name ≠ Text.trimmed currentName then
    throw (.conflict (.staleName id current.name currentName))
  let candidate := { current with
    name
    description := o.description
    status := o.status
    attributes := o.attributes
    parentId := o.parentId }
  -- A move is checked even if it is all that changes.
  if candidate.parentId ≠ current.parentId then d.vetMove current candidate.parentId
  if candidate.agreesWith current then return current
  if candidate.name ≠ current.name then d.requireFreeName id current candidate
  vetStatus id current candidate
  write { candidate with lastModified := now } current.version

/-- Deletes an organization that has no children. -/
def delete (id : String) : Action Unit := do
  match ← Action.call (.delete id) with
  | .deleted _ => return ()
  | .notFound => throw (.notFound (.organization id))
  | .hasChildren count => throw (.conflict (.hasChildren id count))

end OrgForest.Directory
