import Mathlib.Data.List.TakeDrop
import OrgForest.Listing.Cursor
import OrgForest.Proofs.Bytes.Base64
import OrgForest.Proofs.Json.Decoded
import OrgForest.Proofs.Text.Trim

/-!
# Tokens

A token is accepted for the listing and the direction that it was made for, and then it stands for
the cursor that it was made from, with its position as it is read. A payload has one token, so a text
that spells its bytes in another way is refused.

* `Position.Legible`, `Position.asRead` — positions that can be told from their writing, and what any
  position is read as;
* `Cursor.ofPayload?_payload` — a cursor is read back from its payload;
* `Cursor.verify?_eq_some_iff` — a signature that was made is right, and no other is;
* `Cursor.decodeWith_eq_ok_iff` — the texts that are accepted;
* `Cursor.decode_made_for` — what is accepted was made for this;
* `Cursor.decodeWith_padded`, `Cursor.decode_encode` — a token stands for its cursor.
-/

namespace OrgForest

open Shape (slot)

/-! ## Positions -/

theorem SortKey.decode_toJson (k : SortKey) : decode k.toJson.document = .ok k := by
  rw [decode, toJson, Decoder.variant_document]
  cases k <;> rfl

theorem Direction.decode_toJson (d : Direction) : decode d.toJson.document = .ok d := by
  rw [decode, toJson, Decoder.variant_document]
  cases d <;> rfl

/-- A value with its kind before it. -/
theorem SortValue.decode_tagged (source : Source) (kind content : Document) :
    decode source (.object [(Text.symbols "type".toList, kind),
      (Text.symbols "value".toList, content)]) = (do
        let k ← SortKey.decode kind
        endOfMembers (← decodeContent k content) []) := by
  have hmembers : relevant [(Text.symbols "type".toList, kind),
      (Text.symbols "value".toList, content)] = .ok [(true, kind), (false, content)] := by
    simp only [relevant, Text.ofSymbols?_toList]
    rfl
  rw [decode, hmembers]
  rfl

/-- A sort value that can be told from its writing: a name, or a creation time that can. -/
def SortValue.Legible : SortValue → Prop
  | .created t => t.Legible
  | .name _ => True

/-- What a sort value is read as. -/
def SortValue.asRead : SortValue → SortValue
  | .created t => .created t.asRead
  | .name n => .name n

theorem SortValue.legible_asRead (v : SortValue) : v.asRead.Legible := by
  cases v with
  | created t => exact t.legible_asRead
  | name n => trivial

theorem SortValue.asRead_of_legible {v : SortValue} (h : v.Legible) : v.asRead = v := by
  cases v with
  | created t => exact congrArg SortValue.created (Timestamp.asRead_of_legible h)
  | name n => rfl

theorem SortValue.decodeContent_created (t : Timestamp) :
    decodeContent .created t.toJson.document = .ok (.created t.asRead) := by
  simp only [decodeContent, Timestamp.decode_toJson]
  rfl

theorem SortValue.decodeContent_name (n : String) :
    decodeContent .name (Json.string n).document = .ok (.name n) := by
  simp only [decodeContent, Decoder.text_document]
  rfl

theorem SortValue.decode_toJson (source : Source) (v : SortValue) :
    decode source v.toJson.document = .ok v.asRead := by
  cases v with
  | created t =>
    have htagged := decode_tagged source SortKey.created.toJson.document t.toJson.document
    rw [SortKey.decode_toJson] at htagged
    simp only [bind, Except.bind, decodeContent_created, endOfMembers] at htagged
    exact htagged
  | name n =>
    have htagged := decode_tagged source SortKey.name.toJson.document (Json.string n).document
    rw [SortKey.decode_toJson] at htagged
    simp only [bind, Except.bind, decodeContent_name, endOfMembers] at htagged
    exact htagged

/-- A position that can be told from its writing. -/
def Position.Legible (p : Position) : Prop := p.value.Legible

instance : DecidablePred Position.Legible := fun p =>
  match p with
  | ⟨.created t, _⟩ => inferInstanceAs (Decidable t.Legible)
  | ⟨.name _, _⟩ => .isTrue trivial

/-- What a position is read as. -/
def Position.asRead (p : Position) : Position := { p with value := p.value.asRead }

theorem Position.asRead_of_legible {p : Position} (h : p.Legible) : p.asRead = p := by
  rw [asRead, SortValue.asRead_of_legible h]

/-- Only what is legible is read as it was. -/
theorem Position.asRead_eq_self {p : Position} : p.asRead = p ↔ p.Legible := by
  refine ⟨fun h => ?_, asRead_of_legible⟩
  rw [← h]
  exact p.value.legible_asRead

theorem Position.reads (source : Source) (p : Position) : (shape source).Reads
    (fun seen => (slot seen 0 p.value.asRead, slot seen 1 p.id))
    [("value", p.value.toJson), ("id", .string p.id)] p.asRead where
  start := rfl
  put := by
    intro m hm
    simp only [List.mem_cons, List.not_mem_nil, or_false] at hm
    rcases hm with rfl | rfl
    · exact ⟨0, rfl, fun _ => Shape.put_ok (SortValue.decode_toJson source _)
        (by simp [Shape.slot_of_ne])⟩
    · exact ⟨1, rfl, fun _ => Shape.put_ok (Decoder.text_document _) (by simp [Shape.slot_of_ne])⟩
  names := by simp
  finish := by
    intro seen hseen
    have hvalue : 0 ∈ seen := hseen ("value", p.value.toJson) (by simp) 0 rfl
    have hid : 1 ∈ seen := hseen ("id", .string p.id) (by simp) 1 rfl
    rw [Shape.slot_of_mem hvalue, Shape.slot_of_mem hid]
    rfl

theorem Position.decode_toJson (source : Source) (p : Position) :
    (shape source).decode source p.toJson.document = .ok p.asRead :=
  (p.reads source).decode source

namespace Cursor

variable {secret token : String} {key : SortKey} {order : SortOrder} {direction : Direction}

/-! ## Payloads -/

/-- The version of a cursor as it is written. -/
def versionJson (c : Cursor) : Json :=
  .number ((Json.Number.ofInt? c.version).getD (.ofUInt64 0))

/-- What a cursor is read as. -/
def asRead (c : Cursor) : Cursor := { c with position := c.position.asRead }

/-- What is known of a cursor when some fields have come. -/
def partsAt (c : Cursor) (seen : List Nat) : Parts where
  version := slot seen 0 c.version
  key := slot seen 1 c.key
  ascending := slot seen 2 (c.order == .ascending)
  direction := slot seen 3 c.direction
  position := slot seen 4 c.position

theorem byte_versionJson {c : Cursor} (h : c.version = currentVersion) :
    Decoder.byte c.versionJson.document = .ok c.version := by
  rw [versionJson, h]
  show Decoder.byte (.number (some ((Json.Number.ofInt? 1).getD (.ofUInt64 0)))) = _
  rw [Json.Number.ofInt?_eq (by decide)]
  rfl

theorem reads (source : Source) {c : Cursor} (h : c.version = currentVersion) :
    (shape source).Reads c.asRead.partsAt [("v", c.versionJson), ("sort_key", c.key.toJson),
      ("ascending", .bool (c.order == .ascending)), ("direction", c.direction.toJson),
      ("position", c.position.toJson)] c.asRead where
  start := rfl
  put := by
    intro m hm
    simp only [List.mem_cons, List.not_mem_nil, or_false] at hm
    rcases hm with rfl | rfl | rfl | rfl | rfl
    · exact ⟨0, rfl, fun _ => Shape.put_ok (byte_versionJson h)
        (by simp [partsAt, asRead, Shape.slot_of_ne])⟩
    · exact ⟨1, rfl, fun _ => Shape.put_ok (SortKey.decode_toJson _)
        (by simp [partsAt, asRead, Shape.slot_of_ne])⟩
    · exact ⟨2, rfl, fun _ => Shape.put_ok (b := c.order == .ascending) rfl
        (by simp [partsAt, asRead, Shape.slot_of_ne])⟩
    · exact ⟨3, rfl, fun _ => Shape.put_ok (Direction.decode_toJson _)
        (by simp [partsAt, asRead, Shape.slot_of_ne])⟩
    · exact ⟨4, rfl, fun _ => Shape.put_ok (Position.decode_toJson source _)
        (by simp [partsAt, asRead, Shape.slot_of_ne])⟩
  names := by simp
  finish := by
    intro seen hseen
    have hversion : 0 ∈ seen := hseen ("v", c.versionJson) (by simp) 0 rfl
    have hkey : 1 ∈ seen := hseen ("sort_key", c.key.toJson) (by simp) 1 rfl
    have horder : 2 ∈ seen := hseen ("ascending", .bool (c.order == .ascending)) (by simp) 2 rfl
    have hdirection : 3 ∈ seen := hseen ("direction", c.direction.toJson) (by simp) 3 rfl
    have hposition : 4 ∈ seen := hseen ("position", c.position.toJson) (by simp) 4 rfl
    rw [partsAt, Shape.slot_of_mem hversion, Shape.slot_of_mem hkey, Shape.slot_of_mem horder,
      Shape.slot_of_mem hdirection, Shape.slot_of_mem hposition]
    obtain ⟨version, key, order, direction, position⟩ := c
    cases order <;> rfl

theorem decode_toJson (source : Source) {c : Cursor} (h : c.version = currentVersion) :
    (shape source).decode source c.toJson.document = .ok c.asRead :=
  (reads source h).decode source

/-- A cursor is read back from its payload. -/
theorem ofPayload?_payload {c : Cursor} (h : c.version = currentVersion) :
    ofPayload? c.payload = some c.asRead := by
  have hversion : (Json.Number.ofInt? c.version).getD (.ofUInt64 0) = .integer 1 (by decide) := by
    rw [h]
    show (Json.Number.ofInt? 1).getD _ = _
    rw [Json.Number.ofInt?_eq (by decide), Option.getD_some]
  -- the version is the only number in a payload, and it is whole
  have hvalue : c.position.value.toJson.Exact := by
    cases c.position.value <;> exact ⟨trivial, trivial, trivial⟩
  have hexact : c.toJson.Exact := by
    simp only [toJson, hversion, SortKey.toJson, Direction.toJson, Position.toJson, Json.Exact,
      Json.ExactMembers, and_true, true_and]
    exact hvalue
  rw [ofPayload?, payload, Text.symbolsOfBytes_bytes, Document.ofSymbols?_write hexact]
  dsimp only
  rw [decode_toJson .text h]
  rfl

/-! ## Signatures -/

theorem verify?_sign (secret payload : List UInt8) :
    verify? secret (sign secret payload) = some payload := by
  have hdot : ∀ c ∈ Base64.encode payload, (c != '.') = true :=
    Base64.forall_mem_encode (p := (· != '.')) (by decide) payload
  -- the first dot is the one between the payload and its signature
  have hspan : (sign secret payload).span (· != '.') = (Base64.encode payload,
      '.' :: Base64.encode (Sha256.keyed secret payload)) := by
    rw [List.span_eq_takeWhile_dropWhile, sign, List.takeWhile_append_of_pos hdot,
      List.dropWhile_append_of_pos hdot, List.takeWhile_cons_of_neg (by decide),
      List.dropWhile_cons_of_neg (by decide), List.append_nil]
  unfold verify?
  rw [hspan]
  dsimp only
  rw [Base64.decode?_encode, Base64.decode?_encode]
  exact if_pos rfl

/-- A signature is right only in a text that is a payload with its signature. -/
theorem verify?_eq_some_iff {secret payload : List UInt8} {text : List Char} :
    verify? secret text = some payload ↔ text = sign secret payload := by
  constructor
  · intro h
    unfold verify? at h
    rw [List.span_eq_takeWhile_dropWhile] at h
    have hsplit := text.takeWhile_append_dropWhile (p := (· != '.'))
    cases htail : text.dropWhile (· != '.') with
    | nil =>
      rw [htail] at h
      cases h
    | cons dot tail =>
      -- what ends the first half is a dot, and both halves are read strictly
      have hdot : dot = '.' := by
        have hhead := List.head?_dropWhile_not (· != '.') text
        rw [htail] at hhead
        simpa using hhead
      rw [htail, hdot] at hsplit
      rw [htail] at h
      simp only [Option.bind_eq_bind, Option.bind_eq_some_iff, Base64.decode?_eq_some_iff] at h
      obtain ⟨p, hp, signature, hsignature, h⟩ := h
      split at h
      · next hright =>
        obtain rfl : p = payload := Option.some.inj h
        rw [← hsplit, hp, hsignature, hright]
        rfl
      · cases h
  · rintro rfl
    exact verify?_sign secret payload

/-- There is no blank in a token. -/
theorem trim_sign (secret payload : List UInt8) :
    Text.trim (sign secret payload) = sign secret payload := by
  have hblank (bs : List UInt8) : ∀ c ∈ Base64.encode bs, (!Text.isBlank c) = true :=
    Base64.forall_mem_encode (p := fun c => !Text.isBlank c) (by decide) bs
  refine Text.trim_of_no_blank fun c hc => ?_
  rcases List.mem_append.1 hc with hc | hc
  · simpa using hblank _ c hc
  · rcases List.mem_cons.1 hc with rfl | hc
    · rfl
    · simpa using hblank _ c hc

/-! ## Tokens -/

/-- A token is accepted if, blanks around it aside, it is a payload with its signature, and the
payload spells a cursor of the current version, the listing and the direction. -/
theorem decodeWith_eq_ok_iff {secret : List UInt8} {c : Cursor} :
    decodeWith secret token key order direction = .ok c ↔
      (∃ payload, Text.trim token.toList = sign secret payload ∧ ofPayload? payload = some c) ∧
        c.version = currentVersion ∧ c.key = key ∧ c.order = order ∧ c.direction = direction := by
  have hread : (verify? secret (Text.trim token.toList)).bind ofPayload? = some c ↔
      ∃ payload, Text.trim token.toList = sign secret payload ∧ ofPayload? payload = some c := by
    simp only [Option.bind_eq_some_iff, verify?_eq_some_iff]
  rw [← hread, decodeWith]
  cases (verify? secret (Text.trim token.toList)).bind ofPayload? with
  | none =>
    constructor
    · intro h
      cases h
    · rintro ⟨h, -⟩
      cases h
  | some c' =>
    dsimp only
    -- the checks of a cursor that has been read, in their order
    constructor
    · intro h
      split at h
      · cases h
      next hversion =>
      split at h
      · cases h
      next hlisting =>
      split at h
      · cases h
      next hdirection =>
      obtain rfl : c' = c := Except.ok.inj h
      rw [not_or, Decidable.not_not, Decidable.not_not] at hlisting
      exact ⟨rfl, Decidable.not_not.1 hversion, hlisting.1, hlisting.2,
        Decidable.not_not.1 hdirection⟩
    · rintro ⟨hsame, hversion, rfl, rfl, rfl⟩
      obtain rfl : c' = c := Option.some.inj hsame
      rw [if_neg (not_not_intro hversion), if_neg (by simp), if_neg (by simp)]
      rfl

/-- A token that is accepted was made for the listing and the direction for which it is read. -/
theorem decode_made_for {c : Cursor} (h : decode secret token key order direction = .ok c) :
    c.key = key ∧ c.order = order ∧ c.direction = direction :=
  (decodeWith_eq_ok_iff.1 h).2.2

/-- What is read of a token, whatever blanks are around it, is read off the cursor that it was made
from. -/
theorem read_padded (secret : List UInt8) {c : Cursor} (hversion : c.version = currentVersion)
    {pad pad' : String} (hpad : Text.Blank pad) (hpad' : Text.Blank pad') :
    (verify? secret (Text.trim (pad ++ c.encodeWith secret ++ pad').toList)).bind ofPayload? =
      some c.asRead := by
  have htrim : Text.trim (pad ++ c.encodeWith secret ++ pad').toList = sign secret c.payload := by
    rw [String.toList_append, String.toList_append, encodeWith, String.toList_ofList]
    exact Text.trim_padded (trim_sign secret c.payload) hpad hpad'
  rw [htrim, verify?_sign, Option.bind_some]
  exact ofPayload?_payload hversion

/-- A token stands for the cursor that it was made from, as it is read, under the same secret and
whatever blanks are around it. For another listing or another direction it is refused. -/
theorem decodeWith_padded (secret : List UInt8) {c : Cursor} (hversion : c.version = currentVersion)
    {pad pad' : String} (hpad : Text.Blank pad) (hpad' : Text.Blank pad') (key : SortKey)
    (order : SortOrder) (direction : Direction) :
    decodeWith secret (pad ++ c.encodeWith secret ++ pad') key order direction =
      if c.key = key ∧ c.order = order then
        if c.direction = direction then .ok c.asRead else .error .otherDirection
      else .error .otherListing := by
  unfold decodeWith
  rw [read_padded secret hversion hpad hpad']
  dsimp only
  have hversion' : c.asRead.version = currentVersion := hversion
  have hkey : c.asRead.key = c.key := rfl
  have horder : c.asRead.order = c.order := rfl
  have hgoes : c.asRead.direction = c.direction := rfl
  rw [if_neg (not_not_intro hversion'), hkey, horder, hgoes]
  by_cases hlisting : c.key = key ∧ c.order = order
  · rw [if_pos hlisting, if_neg (by rw [not_or]; exact hlisting.imp not_not_intro not_not_intro)]
    by_cases hdirection : c.direction = direction
    · rw [if_pos hdirection, if_neg (not_not_intro hdirection)]
      rfl
    · rw [if_neg hdirection, if_pos hdirection]
      rfl
  · rw [if_neg hlisting, if_pos (by rwa [not_and_or] at hlisting)]
    rfl

theorem decode_encode (secret : String) (key : SortKey) (order : SortOrder)
    (direction : Direction) (p : Position) :
    decode secret ((new key order direction p).encode secret) key order direction =
      .ok (new key order direction p.asRead) := by
  have hbare : (new key order direction p).encode secret =
      "" ++ (new key order direction p).encodeWith (Text.bytesOf secret) ++ "" := by
    rw [String.empty_append, String.append_empty]
    rfl
  have hblank : Text.Blank "" := by decide
  rw [decode, hbare, decodeWith_padded _ rfl hblank hblank, if_pos ⟨rfl, rfl⟩]
  exact if_pos rfl

end Cursor

end OrgForest
