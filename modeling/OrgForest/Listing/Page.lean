import OrgForest.Listing.Cursor

/-!
# Pages

A page is filled by scanning the listing from a cursor on, away from it, until one more
organization has been found than the page holds: the extra one only shows that there is more. A
page before a cursor is scanned backward and turned round. It has a cursor to the neighbour on the
far side when there is more there, and to the neighbour on the near side when it was reached by a
cursor at all.
-/

namespace OrgForest

/-- Part of a listing, with tokens for its neighbours. -/
structure Page (α : Type) where
  items : List α
  next : Option String
  previous : Option String
deriving DecidableEq

namespace Page

/-- The page without items. -/
def empty {α : Type} : Page α := ⟨[], none, none⟩

/-- The page with its items changed. -/
def map {α β : Type} (f : α → β) (p : Page α) : Page β := ⟨p.items.map f, p.next, p.previous⟩

/-- A page as JSON. -/
def toJson {α : Type} (item : α → Json) (p : Page α) : Json :=
  .object <| [("items", .array (p.items.map item))]
    ++ Json.textMember "nextCursor" p.next
    ++ Json.textMember "previousCursor" p.previous

end Page

/-- Which part of a listing makes a page. -/
structure PageWindow where
  limit : Nat
  key : SortKey
  order : SortOrder
  cursor : Option Cursor
deriving DecidableEq

namespace PageWindow

/-- Whether the page lies before its cursor. -/
def goesBack (w : PageWindow) : Bool :=
  match w.cursor with
  | some c => c.direction == .before
  | none => false

/-- The order in which the listing is scanned. -/
def readingOrder (w : PageWindow) : SortOrder := if w.goesBack then w.order.reverse else w.order

/-- The position from which the listing is scanned. -/
def origin (w : PageWindow) : Option Position := w.cursor.map (·.position)

/-- The token for what lies in a direction from an organization, if it is wanted. -/
def tokenFrom (w : PageWindow) (secret : String) (wanted : Bool) (direction : Direction) :
    Option Organization → Option String
  | some o =>
    if wanted then some ((Cursor.new w.key w.order direction (Position.of w.key o)).encode secret)
    else none
  | none => none

/-- The page of what was found in scan order, at most one more than the limit. -/
def pageOf (w : PageWindow) (secret : String) (found : List Organization) : Page Organization :=
  let overflow := w.limit < found.length
  let kept := found.take w.limit
  let items := if w.goesBack then kept.reverse else kept
  let moreAfter := if w.goesBack then w.cursor.isSome else overflow
  let moreBefore := if w.goesBack then overflow else w.cursor.isSome
  ⟨items, w.tokenFrom secret moreAfter .after items.getLast?,
    w.tokenFrom secret moreBefore .before items.head?⟩

end PageWindow

end OrgForest
