import OrgForest.Directory.Naming
import OrgForest.Listing.Page

/-!
# Listings of a directory

A page is filled from batches. Each batch is scanned from the last organization of the one before,
so that the store may change between them, and those that the caller may not see are dropped from
it. The page is full when one more has been found than it holds, and the listing ends with a batch
that is not full.

Room for the page and for one organization more is taken before the first batch. A page may be asked
for that is larger than any room there is, and then the request is not answered at all.
-/

namespace OrgForest.Directory

/-- The size of a page. -/
def pageSize (d : Directory) : Option Nat → Except BadRequest Nat
  | none => .ok d.config.defaultPageLimit
  | some 0 => .error .zeroPageLimit
  | some limit => .ok (min limit d.config.maxPageLimit)

/-- The cursor that a query names. -/
def cursor (d : Directory) (q : ListingQuery) : Except BadRequest (Option Cursor) :=
  let decode (token : String) (direction : Direction) :=
    match Cursor.decode d.config.cursorSecret token q.key q.order direction with
    | .ok c => .ok (some c)
    | .error fault => .error (.cursor fault)
  match q.after, q.before with
  | some _, some _ => .error .bothCursors
  | some token, none => decode token .after
  | none, some token => decode token .before
  | none, none => .ok none

/-- What a listing covers: what stands below the organization for which the caller acts, or else the
whole forest; one level of it, or all levels. -/
def scope (caller : Caller) (recursive : Bool) : Action Scope := do
  match caller.acting with
  | none => return if recursive then .all else .roots
  | some acting =>
    requireExists acting
    return if recursive then .descendantsOf acting else .childrenOf acting

/-- What a page is filled from. -/
structure Selection where
  scope : Scope
  filter : Option Filter
  window : PageWindow
  batchSize : Nat

/-- How far a page has been filled. -/
structure Filling where
  found : List Organization
  /-- The position from which the scan goes on. -/
  position : Option Position

/-- Scans one batch. -/
def fillRound (s : Selection) (allow : BasicOrganization → Bool) (f : Filling) :
    Action (Filling ⊕ List Organization) := do
  let batch ← Action.call <| .scan {
    scope := s.scope
    filter := s.filter
    key := s.window.key
    order := s.window.readingOrder
    after := f.position
    limit := s.batchSize }
  -- One more than the page holds is enough to know that there is more.
  let found := (f.found ++ batch.filter fun o => allow o.basic).take (s.window.limit + 1)
  if batch.length < s.batchSize || s.window.limit < found.length then return .inr found
  else return .inl ⟨found, (batch.getLast?.map (Position.of s.window.key)).or f.position⟩

/-- The organizations that fill a page, in scan order, and one more if there is one. -/
def fill (s : Selection) (allow : BasicOrganization → Bool) : Action (List Organization) :=
  Action.iterate (fillRound s allow) ⟨[], s.window.origin⟩

/-- The bytes of a record in a list. -/
def recordBytes : Nat := 208

/-- Whether a list of so many records can be addressed at all. The number is a word of 64 bits, and
a list has fewer than 2 ^ 63 bytes. -/
def addressable (records : Nat) : Bool :=
  records % UInt64.size * recordBytes < UInt64.size / 2

/-- A page of the organizations that the caller may see, or no answer if there is no room for so
many records and one more. -/
def list (d : Directory) (room : Nat → Bool) (caller : Caller) (q : ListingQuery)
    (allow : BasicOrganization → Bool) : Action (Option (Page BasicOrganization)) := do
  let limit ← Action.check (d.pageSize q.limit)
  let filter ← Action.check ((Filter.parseGiven q.filter).mapError .filter)
  let cursor ← Action.check (d.cursor q)
  let scope ← scope caller q.recursive
  if room (limit + 1) then
    let window : PageWindow := ⟨limit, q.key, q.order, cursor⟩
    let found ← fill ⟨scope, filter, window, d.config.scanBatchSize⟩ allow
    return some ((window.pageOf d.config.cursorSecret found).map (·.basic))
  else return none

end OrgForest.Directory
