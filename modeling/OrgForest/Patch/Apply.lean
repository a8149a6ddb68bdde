import OrgForest.Patch.Operation

/-!
# Applying a patch

Operations act one after the other on a copy without projections, and the first that cannot be
done refuses the whole list. A path names the name, the description, the status, or one attribute
by its key; in a key `~1` stands for a slash and `~0` for a tilde. Name and status cannot be
removed, and what identifies or dates an organization cannot be written at all.
-/

namespace OrgForest.Patch

/-- What a path addresses. -/
inductive Target where
  | name
  | description
  | status
  | custom (key : String)
deriving DecidableEq, Repr

/-- A key as it stands in a path. -/
def escapeKey : List Char → List Char
  | [] => []
  | '~' :: cs => '~' :: '0' :: escapeKey cs
  | '/' :: cs => '~' :: '1' :: escapeKey cs
  | c :: cs => c :: escapeKey cs

/-- The key that stands in a path. -/
def unescapeKey : List Char → List Char
  | '~' :: '1' :: cs => '/' :: unescapeKey cs
  | '~' :: '0' :: cs => '~' :: unescapeKey cs
  | c :: cs => c :: unescapeKey cs
  | [] => []

/-- What the path of a custom attribute starts with, behind the slash. -/
def customMark : List Char := "attributes/".toList

/-- The fields that a patch cannot write. -/
def readOnlyFields : List String := ["id", "parentId", "created", "lastModified", "version"]

namespace Target

/-- What a path addresses, blanks around it aside. -/
def ofPath (path : String) : Except PatchError Target :=
  match Text.trim path.toList with
  | '/' :: pointer =>
    if customMark.isPrefixOf pointer then
      match pointer.drop customMark.length with
      | [] => .error .missingKey
      | key => .ok (.custom (String.ofList (unescapeKey key)))
    else
      let field := String.ofList pointer
      if field = "name" then .ok .name
      else if field = "description" then .ok .description
      else if field = "status" then .ok .status
      else if field ∈ readOnlyFields then .error (.readOnly path)
      else .error (.unknownPath path)
  | _ => .error (.relativePath path)

end Target

namespace Operation

/-- The text that an operation brings. -/
def textValue (o : Operation) : Except PatchError String :=
  match o.value with
  | some (.string s) => .ok s
  | some v => .error (.notText o.path v)
  | none => .error (.missingValue o.kind o.path)

/-- Removes what a target addresses. -/
def applyRemove (o : Operation) (t : Target) (org : Organization) :
    Except PatchError Organization :=
  match t with
  | .name => .error (.required o.path)
  | .status => .error (.required o.path)
  | .description => .ok { org with description := none }
  | .custom key =>
    match org.attribute? key with
    | some _ => .ok (org.removeAttribute key)
    | none => .error (.unknownAttribute key)

/-- Writes what a target addresses. -/
def applyWrite (o : Operation) (t : Target) (org : Organization) :
    Except PatchError Organization := do
  let s ← o.textValue
  match t with
  | .name =>
    let name := Text.trimmed s
    if name = "" then throw .blankName else return { org with name }
  | .description => return { org with description := some s }
  | .status =>
    match Status.read s with
    | .ok status => return { org with status }
    | .error u => throw (.unknownStatus u)
  | .custom key => return org.setAttribute key s

/-- Does one operation. -/
def apply (o : Operation) (org : Organization) : Except PatchError Organization := do
  let t ← Target.ofPath o.path
  match o.kind with
  | .remove => o.applyRemove t org
  | .add => o.applyWrite t org
  | .replace => o.applyWrite t org

end Operation

/-- Does operations one after the other. -/
def applyAll : List Operation → Organization → Except PatchError Organization
  | [], org => .ok org
  | o :: ops, org =>
    match o.apply org with
    | .ok org => applyAll ops org
    | .error e => .error e

/-- The organization that a patch makes of a stored one. -/
def apply (ops : List Operation) (org : Organization) : Except PatchError Organization :=
  applyAll ops org.bare

end OrgForest.Patch
