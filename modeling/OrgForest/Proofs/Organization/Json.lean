import OrgForest.Proofs.Json.Decoded
import OrgForest.Tenant

/-!
# Organizations are read back from JSON

What is written of a record and what is filled in for members that are left out are told field by
field, in different places. They agree for every record: whichever of the optional members a record
has, and whatever its texts and numbers are, it is read back as it was, with its times as they are
read. So the record is the same unless it has a leap second within a minute.

* `Organization.Legible`, `Organization.asRead` — records that can be told from their writing, and
  what any record is read as;
* `Organization.reads`, `BasicOrganization.reads`, `TenantBinding.reads` — field by field;
* `records_read_back` — all records, from their texts and from their values.
-/

namespace OrgForest

open Shape (slot)

/-! ## Members -/

namespace Json

variable {name : String} {m : String × Json}

theorem mem_textMember {s : Option String} :
    m ∈ textMember name s ↔ ∃ t, s = some t ∧ m = (name, .string t) := by
  cases s <;> simp [textMember]

theorem mem_listMember {vs : List Json} :
    m ∈ listMember name vs ↔ vs ≠ [] ∧ m = (name, .array vs) := by
  cases vs <;> simp [listMember]

theorem names_textMember (s : Option String) : ((textMember name s).map (·.1)).Sublist [name] := by
  cases s <;> simp [textMember]

theorem names_listMember (vs : List Json) : ((listMember name vs).map (·.1)).Sublist [name] := by
  cases vs <;> simp [listMember]

end Json

/-! ## Attributes and children -/

namespace Attribute

theorem reads (a : Attribute) : shape.Reads (fun seen => (slot seen 0 a.key, slot seen 1 a.value))
    [("key", .string a.key), ("value", .string a.value)] a where
  start := rfl
  put := by
    intro m hm
    simp only [List.mem_cons, List.not_mem_nil, or_false] at hm
    rcases hm with rfl | rfl
    · exact ⟨0, rfl, fun _ => Shape.put_ok (Decoder.text_document _) (by simp [Shape.slot_of_ne])⟩
    · exact ⟨1, rfl, fun _ => Shape.put_ok (Decoder.text_document _) (by simp [Shape.slot_of_ne])⟩
  names := by simp
  finish := by
    intro seen hseen
    have hkey : 0 ∈ seen := hseen ("key", .string a.key) (by simp) 0 rfl
    have hvalue : 1 ∈ seen := hseen ("value", .string a.value) (by simp) 1 rfl
    rw [Shape.slot_of_mem hkey, Shape.slot_of_mem hvalue]
    rfl

theorem decode_toJson (source : Source) (a : Attribute) :
    shape.decode source a.toJson.document = .ok a :=
  a.reads.decode source

theorem neat (n : Nat) (a : Attribute) : (toJson a).Neat (n + 1) := by
  refine Json.neat_object (fun m hm => ?_) ?_
  · simp only [List.mem_cons, List.not_mem_nil, or_false] at hm
    rcases hm with rfl | rfl <;> exact Json.neat_string n _
  · have hafter : compare "value" "key" = .gt := by decide
    simp [Json.sortMembers, Json.insertMember, hafter]

end Attribute

namespace ChildReference

theorem reads (c : ChildReference) : shape.Reads
    (fun seen => (slot seen 0 c.id, slot seen 1 c.name, slot seen 2 c.status))
    [("id", .string c.id), ("name", .string c.name), ("status", c.status.toJson)] c where
  start := rfl
  put := by
    intro m hm
    simp only [List.mem_cons, List.not_mem_nil, or_false] at hm
    rcases hm with rfl | rfl | rfl
    · exact ⟨0, rfl, fun _ => Shape.put_ok (Decoder.text_document _) (by simp [Shape.slot_of_ne])⟩
    · exact ⟨1, rfl, fun _ => Shape.put_ok (Decoder.text_document _) (by simp [Shape.slot_of_ne])⟩
    · exact ⟨2, rfl, fun _ => Shape.put_ok (Status.decode_toJson _) (by simp [Shape.slot_of_ne])⟩
  names := by simp
  finish := by
    intro seen hseen
    have hid : 0 ∈ seen := hseen ("id", .string c.id) (by simp) 0 rfl
    have hname : 1 ∈ seen := hseen ("name", .string c.name) (by simp) 1 rfl
    have hstatus : 2 ∈ seen := hseen ("status", c.status.toJson) (by simp) 2 rfl
    rw [Shape.slot_of_mem hid, Shape.slot_of_mem hname, Shape.slot_of_mem hstatus]
    rfl

theorem decode_toJson (source : Source) (c : ChildReference) :
    shape.decode source c.toJson.document = .ok c :=
  c.reads.decode source

theorem neat (n : Nat) (c : ChildReference) : (toJson c).Neat (n + 1) := by
  refine Json.neat_object (fun m hm => ?_) ?_
  · simp only [List.mem_cons, List.not_mem_nil, or_false] at hm
    rcases hm with rfl | rfl | rfl <;> exact Json.neat_string n _
  · have hname : compare "name" "id" = .gt := by decide
    have hid : compare "status" "id" = .gt := by decide
    have hstatus : compare "status" "name" = .gt := by decide
    simp [Json.sortMembers, Json.insertMember, hname, hid, hstatus]

end ChildReference

/-! ## Organizations -/

namespace Organization

/-- The members of an organization as they are written. -/
def members (o : Organization) : List (String × Json) :=
  [("id", .string o.id), ("name", .string o.name)]
    ++ Json.textMember "description" o.description
    ++ [("status", o.status.toJson)]
    ++ Json.textMember "parentId" o.parentId
    ++ [("attributes", .array (o.attributes.map Attribute.toJson)),
      ("created", o.created.toJson), ("lastModified", o.lastModified.toJson),
      ("version", Json.ofUInt64 o.version)]
    ++ Json.listMember "children" (o.children.map ChildReference.toJson)
    ++ Json.listMember "permissions" (o.permissions.map Json.string)

/-- What is known of an organization when some fields have come. -/
def partsAt (o : Organization) (seen : List Nat) : Parts where
  id := slot seen 0 o.id
  name := slot seen 1 o.name
  description := slot seen 2 o.description
  status := slot seen 3 o.status
  parentId := slot seen 4 o.parentId
  attributes := slot seen 5 o.attributes
  created := slot seen 6 o.created
  lastModified := slot seen 7 o.lastModified
  version := slot seen 8 o.version
  children := slot seen 9 o.children
  permissions := slot seen 10 o.permissions

variable {m : String × Json} {o : Organization}

theorem mem_members : m ∈ o.members ↔
    m = ("id", .string o.id) ∨ m = ("name", .string o.name) ∨
    (∃ d, o.description = some d ∧ m = ("description", .string d)) ∨
    m = ("status", o.status.toJson) ∨
    (∃ p, o.parentId = some p ∧ m = ("parentId", .string p)) ∨
    m = ("attributes", .array (o.attributes.map Attribute.toJson)) ∨
    m = ("created", o.created.toJson) ∨ m = ("lastModified", o.lastModified.toJson) ∨
    m = ("version", Json.ofUInt64 o.version) ∨
    (o.children.map ChildReference.toJson ≠ [] ∧
      m = ("children", .array (o.children.map ChildReference.toJson))) ∨
    (o.permissions.map Json.string ≠ [] ∧
      m = ("permissions", .array (o.permissions.map Json.string))) := by
  simp only [members, List.mem_append, List.mem_cons, List.not_mem_nil, or_false,
    Json.mem_textMember, Json.mem_listMember, or_assoc]

/-- The names of the members are names of fields, in the order of the fields. -/
theorem names_members (source : Source) (now : Timestamp) (o : Organization) :
    (o.members.map (·.1)).Sublist (shape source now).fields := by
  -- block by block: a block that may be left out has one name or none
  simp only [members, List.map_append]
  refine List.Sublist.append (.append (.append (.append (.append (.append (.refl ["id", "name"])
    (Json.names_textMember _)) (.refl ["status"])) (Json.names_textMember _))
    (.refl ["attributes", "created", "lastModified", "version"])) (Json.names_listMember _))
    (Json.names_listMember _)

/-- An organization whose times can be told from their writing. -/
def Legible (o : Organization) : Prop := o.created.Legible ∧ o.lastModified.Legible

/-- What an organization is read as. -/
def asRead (o : Organization) : Organization :=
  { o with created := o.created.asRead, lastModified := o.lastModified.asRead }

theorem legible_asRead (o : Organization) : o.asRead.Legible :=
  ⟨o.created.legible_asRead, o.lastModified.legible_asRead⟩

/-- Only what is legible is read as it was. -/
theorem asRead_eq_self : o.asRead = o ↔ o.Legible := by
  constructor
  · intro h
    rw [← h]
    exact o.legible_asRead
  · rintro ⟨hcreated, hmodified⟩
    rw [asRead, Timestamp.asRead_of_legible hcreated, Timestamp.asRead_of_legible hmodified]

/-- Every member gives its own field. -/
theorem put_members (source : Source) (now : Timestamp) (hm : m ∈ o.members) :
    ∃ i, (shape source now).fields.idxOf? m.1 = some i ∧ ∀ seen,
      (shape source now).put i m.2.document (o.asRead.partsAt seen) =
        .ok (o.asRead.partsAt (i :: seen)) := by
  rcases mem_members.1 hm with rfl | rfl | ⟨d, hd, rfl⟩ | rfl | ⟨p, hp, rfl⟩ | rfl | rfl | rfl |
    rfl | ⟨-, rfl⟩ | ⟨-, rfl⟩
  · exact ⟨0, rfl, fun _ => Shape.put_ok (Decoder.text_document _)
      (by simp [partsAt, asRead, Shape.slot_of_ne])⟩
  · exact ⟨1, rfl, fun _ => Shape.put_ok (Decoder.text_document _)
      (by simp [partsAt, asRead, Shape.slot_of_ne])⟩
  · exact ⟨2, rfl, fun _ => Shape.put_ok (Decoder.optional_text_document _)
      (by simp [partsAt, asRead, Shape.slot_of_ne, hd])⟩
  · exact ⟨3, rfl, fun _ => Shape.put_ok (Status.decode_toJson _)
      (by simp [partsAt, asRead, Shape.slot_of_ne])⟩
  · exact ⟨4, rfl, fun _ => Shape.put_ok (Decoder.optional_text_document _)
      (by simp [partsAt, asRead, Shape.slot_of_ne, hp])⟩
  · exact ⟨5, rfl, fun _ => Shape.put_ok (Decoder.list_documents (Attribute.decode_toJson source) _)
      (by simp [partsAt, asRead, Shape.slot_of_ne])⟩
  · exact ⟨6, rfl, fun _ => Shape.put_ok (Timestamp.decode_toJson _)
      (by simp [partsAt, asRead, Shape.slot_of_ne])⟩
  · exact ⟨7, rfl, fun _ => Shape.put_ok (Timestamp.decode_toJson _)
      (by simp [partsAt, asRead, Shape.slot_of_ne])⟩
  · exact ⟨8, rfl, fun _ => Shape.put_ok (Decoder.unsigned_document _)
      (by simp [partsAt, asRead, Shape.slot_of_ne])⟩
  · exact ⟨9, rfl, fun _ => Shape.put_ok
      (Decoder.list_documents (ChildReference.decode_toJson source) _)
      (by simp [partsAt, asRead, Shape.slot_of_ne])⟩
  · exact ⟨10, rfl, fun _ => Shape.put_ok (Decoder.list_documents Decoder.text_document _)
      (by simp [partsAt, asRead, Shape.slot_of_ne])⟩

/-- A member that was left out has been so because its field has the default. -/
theorem finish_members (source : Source) (now : Timestamp) (o : Organization) {seen : List Nat}
    (hseen : ∀ m ∈ o.members, ∀ i, (shape source now).fields.idxOf? m.1 = some i → i ∈ seen) :
    (shape source now).finish (o.asRead.partsAt seen) = .ok o.asRead := by
  have hcome (name : String) (v : Json) (i : Nat)
      (hi : (shape source now).fields.idxOf? name = some i)
      (hm : (name, v) ∈ o.members) : i ∈ seen := hseen _ hm i hi
  -- what is always written
  have hid := hcome "id" (.string o.id) 0 rfl (mem_members.2 (by simp))
  have hname := hcome "name" (.string o.name) 1 rfl (mem_members.2 (by simp))
  have hstatus := hcome "status" o.status.toJson 3 rfl (mem_members.2 (by simp))
  have hattributes := hcome "attributes" (.array (o.attributes.map Attribute.toJson)) 5 rfl
    (mem_members.2 (by simp))
  have hcreated := hcome "created" o.created.toJson 6 rfl (mem_members.2 (by simp))
  have hmodified := hcome "lastModified" o.lastModified.toJson 7 rfl (mem_members.2 (by simp))
  have hversion := hcome "version" (Json.ofUInt64 o.version) 8 rfl (mem_members.2 (by simp))
  -- what may be left out
  have hdescription : 2 ∈ seen ∨ o.description = none := by
    cases hd : o.description with
    | none => exact .inr rfl
    | some d => exact .inl (hcome "description" (.string d) 2 rfl (mem_members.2 (by simp [hd])))
  have hparent : 4 ∈ seen ∨ o.parentId = none := by
    cases hp : o.parentId with
    | none => exact .inr rfl
    | some p => exact .inl (hcome "parentId" (.string p) 4 rfl (mem_members.2 (by simp [hp])))
  have hchildren : 9 ∈ seen ∨ o.children = [] := by
    cases hc : o.children with
    | nil => exact .inr rfl
    | cons c cs =>
      exact .inl (hcome "children" (.array (o.children.map ChildReference.toJson)) 9 rfl
        (mem_members.2 (by simp [hc])))
  have hpermissions : 10 ∈ seen ∨ o.permissions = [] := by
    cases hp : o.permissions with
    | nil => exact .inr rfl
    | cons p ps =>
      exact .inl (hcome "permissions" (.array (o.permissions.map Json.string)) 10 rfl
        (mem_members.2 (by simp [hp])))
  simp only [shape, partsAt, asRead, Shape.slot_of_mem hname, Shape.require, Shape.getD_slot (.inl hid),
    Shape.getD_slot hdescription, Shape.getD_slot (.inl hstatus), Shape.getD_slot hparent,
    Shape.getD_slot (.inl hattributes), Shape.getD_slot (.inl hcreated),
    Shape.getD_slot (.inl hmodified), Shape.getD_slot (.inl hversion), Shape.getD_slot hchildren,
    Shape.getD_slot hpermissions]
  rfl

theorem reads (source : Source) (now : Timestamp) (o : Organization) :
    (shape source now).Reads o.asRead.partsAt o.members o.asRead where
  start := rfl
  put _ hm := put_members source now hm
  names := (names_members source now o).nodup (by simp [shape])
  finish _ hseen := finish_members source now o hseen

theorem neat_members (hm : m ∈ o.members) : m.2.Neat 2 := by
  rcases mem_members.1 hm with rfl | rfl | ⟨d, -, rfl⟩ | rfl | ⟨p, -, rfl⟩ | rfl | rfl | rfl |
    rfl | ⟨-, rfl⟩ | ⟨-, rfl⟩
  · exact Json.neat_string 2 _
  · exact Json.neat_string 2 _
  · exact Json.neat_string 2 _
  · exact Json.neat_string 2 _
  · exact Json.neat_string 2 _
  · refine Json.neat_array fun v hv => ?_
    obtain ⟨a, -, rfl⟩ := List.mem_map.1 hv
    exact a.neat 0
  · exact Json.neat_string 2 _
  · exact Json.neat_string 2 _
  · exact Json.neat_ofUInt64 2 _
  · refine Json.neat_array fun v hv => ?_
    obtain ⟨c, -, rfl⟩ := List.mem_map.1 hv
    exact c.neat 0
  · refine Json.neat_array fun v hv => ?_
    obtain ⟨p, -, rfl⟩ := List.mem_map.1 hv
    exact Json.neat_string 1 p

end Organization

namespace BasicOrganization

/-- The members as they are written. -/
def members (o : BasicOrganization) : List (String × Json) :=
  [("id", .string o.id), ("name", .string o.name), ("status", o.status.toJson)]
    ++ Json.textMember "parentId" o.parentId
    ++ [("created", o.created.toJson), ("lastModified", o.lastModified.toJson)]

/-- What is known when some fields have come. -/
def partsAt (o : BasicOrganization) (seen : List Nat) : Parts where
  id := slot seen 0 o.id
  name := slot seen 1 o.name
  status := slot seen 2 o.status
  parentId := slot seen 3 o.parentId
  created := slot seen 4 o.created
  lastModified := slot seen 5 o.lastModified

variable {m : String × Json} {o : BasicOrganization}

theorem mem_members : m ∈ o.members ↔
    m = ("id", .string o.id) ∨ m = ("name", .string o.name) ∨ m = ("status", o.status.toJson) ∨
    (∃ p, o.parentId = some p ∧ m = ("parentId", .string p)) ∨
    m = ("created", o.created.toJson) ∨ m = ("lastModified", o.lastModified.toJson) := by
  simp only [members, List.mem_append, List.mem_cons, List.not_mem_nil, or_false,
    Json.mem_textMember, or_assoc]

/-- A summary whose times can be told from their writing. -/
def Legible (o : BasicOrganization) : Prop := o.created.Legible ∧ o.lastModified.Legible

/-- What a summary is read as. -/
def asRead (o : BasicOrganization) : BasicOrganization :=
  { o with created := o.created.asRead, lastModified := o.lastModified.asRead }

theorem legible_asRead (o : BasicOrganization) : o.asRead.Legible :=
  ⟨o.created.legible_asRead, o.lastModified.legible_asRead⟩

/-- Only what is legible is read as it was. -/
theorem asRead_eq_self : o.asRead = o ↔ o.Legible := by
  constructor
  · intro h
    rw [← h]
    exact o.legible_asRead
  · rintro ⟨hcreated, hmodified⟩
    rw [asRead, Timestamp.asRead_of_legible hcreated, Timestamp.asRead_of_legible hmodified]

theorem reads (o : BasicOrganization) :
    shape.Reads o.asRead.partsAt o.members o.asRead where
  start := rfl
  put := by
    intro m hm
    rcases mem_members.1 hm with rfl | rfl | rfl | ⟨p, hp, rfl⟩ | rfl | rfl
    · exact ⟨0, rfl, fun _ => Shape.put_ok (Decoder.text_document _)
        (by simp [partsAt, asRead, Shape.slot_of_ne])⟩
    · exact ⟨1, rfl, fun _ => Shape.put_ok (Decoder.text_document _)
        (by simp [partsAt, asRead, Shape.slot_of_ne])⟩
    · exact ⟨2, rfl, fun _ => Shape.put_ok (Status.decode_toJson _)
        (by simp [partsAt, asRead, Shape.slot_of_ne])⟩
    · exact ⟨3, rfl, fun _ => Shape.put_ok (Decoder.optional_text_document _)
        (by simp [partsAt, asRead, Shape.slot_of_ne, hp])⟩
    · exact ⟨4, rfl, fun _ => Shape.put_ok (Timestamp.decode_toJson _)
        (by simp [partsAt, asRead, Shape.slot_of_ne])⟩
    · exact ⟨5, rfl, fun _ => Shape.put_ok (Timestamp.decode_toJson _)
        (by simp [partsAt, asRead, Shape.slot_of_ne])⟩
  names := by
    have hsub : (o.members.map (·.1)).Sublist shape.fields := by
      simp only [members, List.map_append]
      exact .append (.append (.refl ["id", "name", "status"]) (Json.names_textMember _))
        (.refl ["created", "lastModified"])
    exact hsub.nodup (by simp [shape])
  finish := by
    intro seen hseen
    have hcome (name : String) (v : Json) (i : Nat) (hi : shape.fields.idxOf? name = some i)
        (hm : (name, v) ∈ o.members) : i ∈ seen := hseen _ hm i hi
    have hid := hcome "id" (.string o.id) 0 rfl (mem_members.2 (by simp))
    have hname := hcome "name" (.string o.name) 1 rfl (mem_members.2 (by simp))
    have hstatus := hcome "status" o.status.toJson 2 rfl (mem_members.2 (by simp))
    have hcreated := hcome "created" o.created.toJson 4 rfl (mem_members.2 (by simp))
    have hmodified := hcome "lastModified" o.lastModified.toJson 5 rfl (mem_members.2 (by simp))
    have hparent : 3 ∈ seen ∨ o.parentId = none := by
      cases hp : o.parentId with
      | none => exact .inr rfl
      | some p => exact .inl (hcome "parentId" (.string p) 3 rfl (mem_members.2 (by simp [hp])))
    simp only [shape, partsAt, asRead, Shape.slot_of_mem hid, Shape.slot_of_mem hname,
      Shape.slot_of_mem hstatus, Shape.slot_of_mem hcreated, Shape.slot_of_mem hmodified,
      Shape.require, Shape.getD_slot hparent]
    rfl

theorem neat_members (hm : m ∈ o.members) : m.2.Neat 0 := by
  rcases mem_members.1 hm with rfl | rfl | rfl | ⟨p, -, rfl⟩ | rfl | rfl <;>
    exact Json.neat_string 0 _

end BasicOrganization

namespace TenantBinding

theorem reads (b : TenantBinding) : shape.Reads
    (fun seen => (slot seen 0 b.organizationId, slot seen 1 b.tenantDomain, slot seen 2 b.tenantId))
    [("organizationId", .string b.organizationId), ("tenantDomain", .string b.tenantDomain),
      ("tenantId", Json.ofInt64 b.tenantId)] b where
  start := rfl
  put := by
    intro m hm
    simp only [List.mem_cons, List.not_mem_nil, or_false] at hm
    rcases hm with rfl | rfl | rfl
    · exact ⟨0, rfl, fun _ => Shape.put_ok (Decoder.text_document _) (by simp [Shape.slot_of_ne])⟩
    · exact ⟨1, rfl, fun _ => Shape.put_ok (Decoder.text_document _) (by simp [Shape.slot_of_ne])⟩
    · exact ⟨2, rfl, fun _ => Shape.put_ok (Decoder.word_document _) (by simp [Shape.slot_of_ne])⟩
  names := by simp
  finish := by
    intro seen hseen
    have horganization : 0 ∈ seen :=
      hseen ("organizationId", .string b.organizationId) (by simp) 0 rfl
    have hdomain : 1 ∈ seen := hseen ("tenantDomain", .string b.tenantDomain) (by simp) 1 rfl
    have hnumber : 2 ∈ seen := hseen ("tenantId", Json.ofInt64 b.tenantId) (by simp) 2 rfl
    rw [Shape.slot_of_mem horganization, Shape.slot_of_mem hdomain, Shape.slot_of_mem hnumber]
    rfl

end TenantBinding

/-! ## Main result -/

theorem Organization.readAs (now : Timestamp) (o : Organization) : ReadAs Organization.toJson
    (fun source => (Organization.shape source now).decode source) o o.asRead :=
  Shape.Reads.readAs (fun source => o.reads source now) rfl
    (fun _ hm => Organization.neat_members hm) (by decide)

theorem BasicOrganization.readAs (o : BasicOrganization) :
    ReadAs BasicOrganization.toJson BasicOrganization.shape.decode o o.asRead :=
  Shape.Reads.readAs (fun _ => o.reads) rfl (fun _ hm => BasicOrganization.neat_members hm)
    (by decide)

theorem TenantBinding.readsBack (b : TenantBinding) :
    ReadsBack TenantBinding.toJson TenantBinding.shape.decode b := by
  refine Shape.Reads.readAs (n := 0) (fun _ => b.reads) rfl (fun m hm => ?_) (by decide)
  simp only [List.mem_cons, List.not_mem_nil, or_false] at hm
  rcases hm with rfl | rfl | rfl
  · exact Json.neat_string 0 _
  · exact Json.neat_string 0 _
  · exact Json.neat_ofInt64 0 _

/-- **Records are read back.** Every organization, whatever it has and lacks and whatever instant
fills in for a missing time, every summary of one and every tenant binding is read from its compact
text, from its value as it is written, and from the value that the text spells. It is read as it was,
except that a leap second within a minute is taken for the next second; so it is the same record
exactly if it has none. -/
theorem records_read_back :
    (∀ (now : Timestamp) (o : Organization), ReadAs Organization.toJson
      (fun source => (Organization.shape source now).decode source) o o.asRead) ∧
    (∀ o : BasicOrganization,
      ReadAs BasicOrganization.toJson BasicOrganization.shape.decode o o.asRead) ∧
    (∀ b : TenantBinding, ReadsBack TenantBinding.toJson TenantBinding.shape.decode b) ∧
    (∀ o : Organization, o.asRead = o ↔ o.created.Legible ∧ o.lastModified.Legible) ∧
    ∀ o : BasicOrganization, o.asRead = o ↔ o.created.Legible ∧ o.lastModified.Legible :=
  ⟨Organization.readAs, BasicOrganization.readAs, TenantBinding.readsBack,
    fun _ => Organization.asRead_eq_self, fun _ => BasicOrganization.asRead_eq_self⟩

/-- An organization of a leap second within a minute is read as another one. -/
theorem read_changed_within_minute : ¬ ReadsBack Organization.toJson
    (fun source => (Organization.shape source .epoch).decode source)
    (Organization.new .withinMinute "Noon") := by
  intro h
  have hread := (Organization.readAs .epoch (Organization.new .withinMinute "Noon")).value
  have hsame := Except.ok.inj (hread.symm.trans h.value)
  exact Timestamp.illegible_withinMinute (Organization.asRead_eq_self.1 hsame).1

end OrgForest
