import Mathlib.Data.List.Basic
import OrgForest.Directory.Listing
import OrgForest.Proofs.Listing.Token

/-!
# Tokens that come back

A token leaves the service with a page and comes back with a query, perhaps with blanks around it.
Under the secret that it was signed with, it is read as the very cursor that it was made from. This
holds of ids and names of any text, and of timestamps with a fraction, in a year of more than four
digits, or with a leap second at the end of a minute. Only a leap second within a minute is taken for
the next second. A query for another listing, or one that goes the other way, is refused.

Nothing else is taken for a token. The signature covers the bytes of the payload, and a payload can
be spelled in one way only, so whoever has a token cannot make a second text of it.

* `ListingQuery.going` — a query that comes back with a token;
* `Directory.tokens_read` — what becomes of the token;
* `Cursor.Spelled`, `Cursor.carried?` — how a token is spelled, and the payload in it;
* `Directory.tokens_rigid` — which texts are accepted.
-/

namespace OrgForest

/-- The query that goes on from a token in a direction. -/
def ListingQuery.going (q : ListingQuery) (direction : Direction) (token : String) :
    ListingQuery :=
  match direction with
  | .after => { q with after := some token, before := none }
  | .before => { q with after := none, before := some token }

namespace Directory

theorem cursor_going (d : Directory) (q : ListingQuery) (direction : Direction) (token : String) :
    d.cursor (q.going direction token) =
      match Cursor.decode d.config.cursorSecret token q.key q.order direction with
      | .ok c => .ok (some c)
      | .error fault => .error (.cursor fault) := by
  cases direction <;> rfl

/-- **A token is read as the cursor that it was made from.** Whatever the secret and the cursor, and
with any blanks around it: for the listing and the direction of the cursor the token stands for this
cursor with its position as it is read, which is the very same one exactly if the position is a name
or a creation time that is no leap second within a minute. For another listing, or the other
direction, the token is refused, and a query that brings it to a directory with this secret is a bad
request. -/
theorem tokens_read (key : SortKey) (order : SortOrder) (direction : Direction) (p : Position)
    {pad pad' : String} (hpad : Text.Blank pad) (hpad' : Text.Blank pad') :
    let c := Cursor.new key order direction p
    let read := Cursor.new key order direction p.asRead
    (read = c ↔ p.Legible) ∧
    (∀ (secret : List UInt8) (key' : SortKey) (order' : SortOrder) (direction' : Direction),
      Cursor.decodeWith secret (pad ++ c.encodeWith secret ++ pad') key' order' direction' =
        if key = key' ∧ order = order' then
          if direction = direction' then .ok read else .error .otherDirection
        else .error .otherListing) ∧
    ∀ (d : Directory) (q : ListingQuery) (direction' : Direction),
      d.cursor (q.going direction' (pad ++ c.encode d.config.cursorSecret ++ pad')) =
        if key = q.key ∧ order = q.order then
          if direction = direction' then .ok (some read) else .error (.cursor .otherDirection)
        else .error (.cursor .otherListing) := by
  intro c read
  have hversion : c.version = Cursor.currentVersion := rfl
  refine ⟨?_, ?_, ?_⟩
  · rw [← Position.asRead_eq_self]
    exact ⟨congrArg Cursor.position, congrArg (Cursor.new key order direction)⟩
  · intro secret key' order' direction'
    exact Cursor.decodeWith_padded secret hversion hpad hpad' key' order' direction'
  · intro d q direction'
    -- the directory asks for the cursor under the bytes of its secret
    rw [cursor_going, Cursor.decode, Cursor.encode,
      Cursor.decodeWith_padded _ hversion hpad hpad']
    by_cases hlisting : key = q.key ∧ order = q.order
    · have hsame : c.key = q.key ∧ c.order = q.order := hlisting
      rw [if_pos hlisting, if_pos hsame]
      by_cases hdirection : direction = direction'
      · have hgoes : c.direction = direction' := hdirection
        rw [if_pos hdirection, if_pos hgoes]
        rfl
      · have hturns : ¬ c.direction = direction' := hdirection
        rw [if_neg hdirection, if_neg hturns]
    · have hother : ¬ (c.key = q.key ∧ c.order = q.order) := hlisting
      rw [if_neg hlisting, if_neg hother]

/-- The middle of a leap second at the end of the year 9999, and an id that JSON has to escape. -/
def atLeap : Position where
  value := .created ((Timestamp.make? 253402300799 1500000000).getD .epoch)
  id := "\"\n"

theorem tokens_read_atLeap :
    Text.Blank " \t" ∧ Text.Blank "\n" ∧ atLeap.Legible ∧
      (let c := Cursor.new .created .descending .before atLeap
      let token := " \t" ++ c.encodeWith [0xff, 0] ++ "\n"
      Cursor.decodeWith [0xff, 0] token .created .descending .before = .ok c ∧
        Cursor.decodeWith [0xff, 0] token .name .descending .before = .error .otherListing ∧
        Cursor.decodeWith [0xff, 0] token .created .descending .after =
          .error .otherDirection) := by
  have hpad : Text.Blank " \t" := by decide
  have hpad' : Text.Blank "\n" := by decide
  have hlegible : atLeap.Legible := by decide
  obtain ⟨hsame, hread, -⟩ := tokens_read .created .descending .before atLeap hpad hpad'
  rw [hsame.2 hlegible] at hread
  exact ⟨hpad, hpad', hlegible, hread [0xff, 0] .created .descending .before,
    hread [0xff, 0] .name .descending .before, hread [0xff, 0] .created .descending .after⟩

/-- A position within a minute is not the one that its token stands for. -/
theorem token_changed_within_minute :
    let c := Cursor.new .created .ascending .after ⟨.created .withinMinute, "a"⟩
    Cursor.decode "secret" (c.encode "secret") .created .ascending .after ≠ .ok c := by
  intro c hsame
  rw [Cursor.decode_encode] at hsame
  have hposition := congrArg Cursor.position (Except.ok.inj hsame)
  exact Timestamp.illegible_withinMinute (Position.asRead_eq_self.1 hposition)

end Directory

/-! ## One spelling for a payload -/

namespace Cursor

/-- A text is a payload and its signature, each in base64url and with a dot between them, and the
payload spells a cursor of the current version. -/
structure Spelled (secret : List UInt8) (text : List Char) (payload : List UInt8) (c : Cursor) :
    Prop where
  halves : text = Base64.encode payload ++ '.' :: Base64.encode (Sha256.keyed secret payload)
  read : ofPayload? payload = some c
  current : c.version = 1

/-- The payload that a text carries: the bytes of what stands before its first dot. -/
def carried? (text : List Char) : Option (List UInt8) :=
  Base64.decode? (text.takeWhile (· != '.'))

theorem Spelled.carried {secret payload : List UInt8} {text : List Char} {c : Cursor}
    (h : Spelled secret text payload c) : carried? text = some payload := by
  have hdot : ∀ c ∈ Base64.encode payload, (c != '.') = true :=
    Base64.forall_mem_encode (p := (· != '.')) (by decide) payload
  rw [carried?, h.halves, List.takeWhile_append_of_pos hdot,
    List.takeWhile_cons_of_neg (by decide), List.append_nil, Base64.decode?_encode]

/-- What is accepted is what spells a cursor for the listing and the direction that are asked for. -/
theorem accepted_iff {secret : List UInt8} {token : String} {key : SortKey} {order : SortOrder}
    {direction : Direction} {c : Cursor} :
    Cursor.decodeWith secret token key order direction = .ok c ↔
      (c.key = key ∧ c.order = order ∧ c.direction = direction) ∧
        ∃ payload, Spelled secret (Text.trim token.toList) payload c := by
  rw [Cursor.decodeWith_eq_ok_iff]
  constructor
  · rintro ⟨⟨payload, htext, hread⟩, hversion, hmade⟩
    exact ⟨hmade, payload, htext, hread, hversion⟩
  · rintro ⟨hmade, payload, hspelled⟩
    exact ⟨⟨payload, hspelled.halves, hspelled.read⟩, hspelled.current, hmade⟩

/-- The only dot of a token is that between its halves, so there is one way to halve it. -/
theorem Spelled.unique_halves {secret payload : List UInt8} {text head tail : List Char}
    {c : Cursor} (h : Spelled secret text payload c) (htext : text = head ++ '.' :: tail) :
    head = Base64.encode payload ∧ tail = Base64.encode (Sha256.keyed secret payload) := by
  have hdot (bs : List UInt8) : '.' ∉ Base64.encode bs := by
    intro hmem
    have hother := Base64.forall_mem_encode (p := (· != '.')) (by decide) bs '.' hmem
    exact absurd hother (by decide)
  have hsame := h.halves.symm.trans htext
  rw [List.append_cons_inj_of_notMem (hdot _) (hdot _)] at hsame
  exact ⟨hsame.1.symm, hsame.2.2.symm⟩

end Cursor

namespace Directory

/-- **A payload has one token, and nothing else is accepted.** Under whatever secret, a token is
accepted for a listing and a direction exactly if, blanks around it aside, it is a payload in
base64url, a dot, and the keyed digest of the payload in base64url, and the payload spells a cursor
of the current version for this listing and direction. Any other text is a bad request. So two
tokens that are accepted under one secret and differ at all carry different payloads, and neither
half of an accepted token can be spelled in another way. -/
theorem tokens_rigid (secret : List UInt8) (key : SortKey) (order : SortOrder)
    (direction : Direction) (token : String) :
    let text := Text.trim token.toList
    let MadeFor (c : Cursor) : Prop := c.key = key ∧ c.order = order ∧ c.direction = direction
    (∀ c, Cursor.decodeWith secret token key order direction = .ok c ↔
      MadeFor c ∧ ∃ payload, Cursor.Spelled secret text payload c) ∧
    ((¬ ∃ c payload, MadeFor c ∧ Cursor.Spelled secret text payload c) →
      ∃ fault, Cursor.decodeWith secret token key order direction = .error fault ∧
        ∀ (d : Directory) (q : ListingQuery), Text.bytesOf d.config.cursorSecret = secret →
          q.key = key → q.order = order →
            d.cursor (q.going direction token) = .error (.cursor fault)) ∧
    ∀ c, Cursor.decodeWith secret token key order direction = .ok c →
      (∀ (token' : String) (key' : SortKey) (order' : SortOrder) (direction' : Direction)
        (c' : Cursor), Cursor.decodeWith secret token' key' order' direction' = .ok c' →
          Text.trimmed token' ≠ Text.trimmed token →
            Cursor.carried? (Text.trim token'.toList) ≠ Cursor.carried? text) ∧
      ∀ head tail head' tail' : List Char, text = head ++ '.' :: tail →
        Base64.decode? head' = Base64.decode? head → Base64.decode? tail' = Base64.decode? tail →
          head' = head ∧ tail' = tail := by
  intro text MadeFor
  refine ⟨fun c => Cursor.accepted_iff, fun hother => ?_, fun c hc => ?_⟩
  · cases hdecode : Cursor.decodeWith secret token key order direction with
    | ok c =>
      obtain ⟨hmade, payload, hspelled⟩ := Cursor.accepted_iff.1 hdecode
      exact absurd ⟨c, payload, hmade, hspelled⟩ hother
    | error fault =>
      refine ⟨fault, rfl, fun d q hsecret hkey horder => ?_⟩
      rw [cursor_going, Cursor.decode, hsecret, hkey, horder, hdecode]
  · obtain ⟨-, payload, hspelled⟩ := Cursor.accepted_iff.1 hc
    constructor
    · intro token' key' order' direction' c' hc' hdiffer hcarried
      obtain ⟨-, payload', hspelled'⟩ := Cursor.accepted_iff.1 hc'
      -- the payload determines its signature, and so the whole text
      rw [hspelled'.carried, hspelled.carried, Option.some_inj] at hcarried
      refine hdiffer (congrArg String.ofList ?_)
      rw [hspelled'.halves, hcarried, ← hspelled.halves]
    · intro head tail head' tail' htext hhead htail
      obtain ⟨rfl, rfl⟩ := hspelled.unique_halves htext
      rw [Base64.decode?_encode, Base64.decode?_eq_some_iff] at hhead htail
      exact ⟨hhead, htail⟩

/-- The cursor of a page by name, whose first organization has an id with a dot in it. -/
def dotted : Cursor := .new .name .ascending .before ⟨.name "Acme", "o.1"⟩

theorem tokens_rigid_dotted :
    Cursor.decode "secret" (dotted.encode "secret") .name .ascending .before = .ok dotted ∧
      ∃ payload, Cursor.Spelled (Text.bytesOf "secret")
        (Text.trim (dotted.encode "secret").toList) payload dotted := by
  have hown : Cursor.decode "secret" (dotted.encode "secret") .name .ascending .before =
      .ok dotted := Cursor.decode_encode "secret" .name .ascending .before _
  have hrigid := tokens_rigid (Text.bytesOf "secret") .name .ascending .before
    (dotted.encode "secret")
  exact ⟨hown, ((hrigid.1 dotted).1 hown).2⟩

end Directory

end OrgForest
