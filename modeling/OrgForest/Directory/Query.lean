import OrgForest.Listing.Position

/-!
# Requests to a directory

A request names itself for the records of the service, and may say for which organization its caller
acts: that organization is the scope of listings and of names.
-/

namespace OrgForest

/-- Who asks. -/
structure Caller where
  requestId : String
  /-- The organization that the caller acts for. -/
  acting : Option String
deriving DecidableEq, Repr

namespace Caller

/-- A request of nobody in particular. -/
def new (requestId : String) : Caller := ⟨requestId, none⟩

/-- A request on behalf of an organization. -/
def onBehalfOf (requestId organization : String) : Caller := ⟨requestId, some organization⟩

end Caller

/-- What is asked of a listing. -/
structure ListingQuery where
  /-- The size of the page. -/
  limit : Option Nat
  /-- The token of a cursor to go on after. -/
  after : Option String
  /-- The token of a cursor to go back before. -/
  before : Option String
  order : SortOrder
  key : SortKey
  /-- A filter expression. -/
  filter : Option String
  /-- Whether the listing goes deeper than one level. -/
  recursive : Bool
deriving DecidableEq, Repr

/-- What a reader wants to see of an organization beside its record. -/
structure View where
  children : Bool
  permissions : Bool
deriving DecidableEq, Repr

namespace ListingQuery

/-- The query for the first page of the listing by creation, one level deep. -/
def new : ListingQuery := ⟨none, none, none, .ascending, .created, none, false⟩

/-- A query as shown in a message. -/
def describe (q : ListingQuery) : String :=
  "ListQuery " ++ Text.diagnosticFields [
    ("limit", Text.diagnosticOption (q.limit.map toString)),
    ("after", Text.diagnosticOption (q.after.map Text.diagnostic)),
    ("before", Text.diagnosticOption (q.before.map Text.diagnostic)),
    ("sort_order", match q.order with
      | .ascending => "Ascending"
      | .descending => "Descending"),
    ("sort_by", match q.key with
      | .created => "Created"
      | .name => "Name"),
    ("filter", Text.diagnosticOption (q.filter.map Text.diagnostic)),
    ("recursive", toString q.recursive)]

end ListingQuery

namespace View

/-- The record and nothing beside it. -/
def new : View := ⟨false, false⟩

/-- The options as shown in a message. -/
def describe (o : View) : String :=
  "ReadOptions " ++ Text.diagnosticFields [
    ("include_children", toString o.children),
    ("include_permissions", toString o.permissions)]

end View

/-- What signs cursors, as shown in a message: nothing of it. -/
def describeSigner : String := "CursorCodec \x7b .. \x7d"

end OrgForest
