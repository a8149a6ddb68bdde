import OrgForest.Text.Ascii
import OrgForest.Text.Blank
import OrgForest.Time.Timestamp

/-!
# Organizations

An organization is a node of a forest: every one but a root carries the id of its parent, and
depth is never stored. Children and permissions are projections: they are filled in for a reader
who asks for them, and a store never keeps them.
-/

namespace OrgForest

/-- Whether an organization takes part. -/
inductive Status where
  | active
  | disabled
deriving DecidableEq, Repr, Inhabited

namespace Status

/-- The name of a status. -/
def text : Status → String
  | .active => "ACTIVE"
  | .disabled => "DISABLED"

/-- A text that names no status, in capitals. -/
structure Unknown where
  name : String
deriving DecidableEq, Repr

/-- The fault in words. -/
def Unknown.message (u : Unknown) : String :=
  s!"Invalid organization status '{u.name}', expected ACTIVE or DISABLED"

/-- Reads a status without regard to case and surrounding blanks. -/
def read (s : String) : Except Unknown Status :=
  let name := Text.upper (Text.trimmed s)
  if name = "ACTIVE" then .ok .active
  else if name = "DISABLED" then .ok .disabled
  else .error ⟨name⟩

end Status

/-- A key with its value. -/
structure Attribute where
  key : String
  value : String
deriving DecidableEq, Repr

/-- What an organization shows of a child. -/
structure ChildReference where
  id : String
  name : String
  status : Status
deriving DecidableEq, Repr

/-- A node of the forest. -/
structure Organization where
  id : String
  name : String
  description : Option String
  status : Status
  /-- The id of the parent; a root has none. -/
  parentId : Option String
  /-- Attributes in the order in which they were added. -/
  attributes : List Attribute
  created : Timestamp
  lastModified : Timestamp
  /-- Counts the writes of the record. -/
  version : UInt64
  children : List ChildReference
  permissions : List String
deriving DecidableEq

/-- What a listing shows of an organization. -/
structure BasicOrganization where
  id : String
  name : String
  status : Status
  parentId : Option String
  created : Timestamp
  lastModified : Timestamp
deriving DecidableEq

namespace Organization

/-- An active root of this name that has not been stored yet. -/
def new (now : Timestamp) (name : String) : Organization :=
  ⟨"", name, none, .active, none, [], now, now, 0, [], []⟩

instance : Inhabited Organization := ⟨new .epoch ""⟩

/-- Whether the organization has no parent. -/
def isRoot (o : Organization) : Bool := o.parentId.isNone

/-- Whether the organization is active. -/
def isActive (o : Organization) : Bool := o.status == .active

/-- The organization without its projections. -/
def bare (o : Organization) : Organization :=
  { o with children := [], permissions := [] }

/-- What a listing shows of the organization. -/
def basic (o : Organization) : BasicOrganization :=
  ⟨o.id, o.name, o.status, o.parentId, o.created, o.lastModified⟩

/-- What its parent shows of the organization. -/
def childReference (o : Organization) : ChildReference := ⟨o.id, o.name, o.status⟩

/-- Whether two organizations agree in all that a caller can edit. -/
def agreesWith (o p : Organization) : Bool :=
  o.name == p.name && o.description == p.description && o.status == p.status &&
    o.parentId == p.parentId && o.attributes == p.attributes

/-! ## Attributes -/

/-- The value of a key: that of its first attribute. -/
def attribute? (key : String) (o : Organization) : Option String :=
  (o.attributes.find? (·.key == key)).map (·.value)

/-- Sets the value of the first attribute with this key, or appends a new one. -/
def putAttribute (key value : String) : List Attribute → List Attribute
  | [] => [⟨key, value⟩]
  | a :: as => if a.key = key then ⟨key, value⟩ :: as else a :: putAttribute key value as

/-- Removes the first attribute with this key. -/
def dropAttribute (key : String) : List Attribute → List Attribute
  | [] => []
  | a :: as => if a.key = key then as else a :: dropAttribute key as

/-- The organization with a key set to a value. -/
def setAttribute (key value : String) (o : Organization) : Organization :=
  { o with attributes := putAttribute key value o.attributes }

/-- The organization without a key. -/
def removeAttribute (key : String) (o : Organization) : Organization :=
  { o with attributes := dropAttribute key o.attributes }

end Organization

end OrgForest
