import OrgForest.Directory.Config
import OrgForest.Directory.Query
import OrgForest.Hierarchy.Walk

/-!
# Names and records of a directory

A name is stored without the blanks around it. Where it has to be unique depends on the directory:
everywhere, or within a hierarchy and among the roots. The hierarchy of an organization is known
by its root, which is found by walking up.
-/

namespace OrgForest

namespace Action

/-- The result of a check, whose fault is a bad request. -/
def check {α : Type} : Except BadRequest α → Action α
  | .ok a => pure a
  | .error fault => throw (.badRequest fault)

end Action

namespace Directory

/-- The record of an organization that has to be there. -/
def load (id : String) : Action Organization := do
  match ← Action.call (.get id) with
  | some o => return o
  | none => throw (.notFound (.organization id))

/-- Refuses an id without record. -/
def requireExists (id : String) : Action Unit := do
  if ← Action.call (.exists id) then return () else throw (.notFound (.organization id))

/-! ## What may be stored -/

/-- The name as it is stored: without blanks around it, not empty and not too long. -/
def validName (d : Directory) (name : String) : Except BadRequest String :=
  let name := Text.trimmed name
  if name = "" then .error .blankName
  else if d.config.maxNameLength < name.length then
    .error (.nameTooLong name.length d.config.maxNameLength)
  else .ok name

/-- Refuses blank and repeated keys, given the keys before them. -/
def validKeys : List String → List Attribute → Except BadRequest Unit
  | _, [] => .ok ()
  | seen, a :: as =>
    if Text.trimmed a.key = "" then .error .blankAttributeKey
    else if a.key ∈ seen then .error (.repeatedAttributeKey a.key)
    else validKeys (a.key :: seen) as

/-- Refuses attributes with a blank or repeated key. -/
def validAttributes (as : List Attribute) : Except BadRequest Unit := validKeys [] as

/-! ## Names within a hierarchy -/

/-- The ids from the root down to an organization. -/
def chainOf (d : Directory) (id : String) : Action Chain :=
  Hierarchy.chainOf d.config.walkRetryLimit id

/-- The root of an organization. -/
def rootOf (d : Directory) (id : String) : Action (Option String) :=
  return (← d.chainOf id).head?

/-- Whether a name that stands for one organization is taken from another: everywhere, or if both
are roots, or if both have the same root. -/
def clashesWith (d : Directory) (root : Option String) (isRoot : Bool) (other : Organization) :
    Action Bool :=
  match d.config.nameScope with
  | .global => return true
  | .hierarchy =>
    if isRoot && other.isRoot then return true
    else
      match root with
      | none => return false
      | some root => return (← d.rootOf other.id) == some root

/-- Whether any organization but the excluded one clashes. -/
def anyClash (d : Directory) (root : Option String) (isRoot : Bool) (exclude : Option String) :
    List Organization → Action Bool
  | [] => return false
  | o :: os => do
    if some o.id = exclude then d.anyClash root isRoot exclude os
    else if ← d.clashesWith root isRoot o then return true
    else d.anyClash root isRoot exclude os

/-- Whether a name is taken for an organization in the hierarchy of `root`, or for a new root. -/
def isTaken (d : Directory) (name : String) (root : Option String) (isRoot : Bool)
    (exclude : Option String) : Action Bool := do
  d.anyClash root isRoot exclude (← Action.call (.named name))

/-- The ids of those organizations that stand in the hierarchy of `root`. -/
def idsWithin (d : Directory) (root : String) : List Organization → Action (List String)
  | [] => return []
  | o :: os => do
    let here := (← d.rootOf o.id) == some root
    let rest ← d.idsWithin root os
    return if here then o.id :: rest else rest

/-- The ids of the organizations of a name in the hierarchy of `root`. -/
def idsByName (d : Directory) (name root : String) : Action (List String) := do
  d.idsWithin root (← Action.call (.named name))

/-- The root of the hierarchy in which a caller acts, if the caller acts in any. -/
def scopeRoot (d : Directory) (caller : Caller) : Action (Option String) :=
  match caller.acting with
  | none => return none
  | some acting => do
    match ← d.rootOf acting with
    | some root => return some root
    | none => throw (.notFound (.organization acting))

end Directory

end OrgForest
