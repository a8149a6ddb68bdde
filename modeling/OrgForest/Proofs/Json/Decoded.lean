import OrgForest.Organization.Json
import OrgForest.Proofs.Except
import OrgForest.Proofs.Json.Ordered
import OrgForest.Proofs.Time.Written

/-!
# Records are read back from their members

A record is put together field by field. What has been read so far depends on the fields that have
come and not on their order, so a record is read back from its members in any order, provided that
each member gives its own field, and what was left out is what the record takes for a default.

* `Decoder.text_document`, `Timestamp.decode_toJson`, … — leaves are read back;
* `Decoder.list_documents_map`, `Decoder.list_documents` — lists are read item by item;
* `Shape.slot` — a field that is known once it has come;
* `Shape.Reads`, `Shape.Reads.decode` — records are, from members in any order;
* `ReadAs`, `ReadsBack`, `Shape.Reads.readAs` — and so from their texts and values.
-/

namespace OrgForest

open Text (Symbol)

/-! ## Leaves -/

namespace Decoder

theorem textAs_document (expected s : String) :
    textAs expected (Json.string s).document = .ok s := by
  simp only [Json.document, textAs, Text.ofSymbols?_toList]

theorem text_document (s : String) : text (Json.string s).document = .ok s :=
  textAs_document _ s

theorem optional_text_document (s : String) :
    optional text (Json.string s).document = .ok (some s) := by
  show (text (Json.string s).document).map some = _
  rw [text_document]
  rfl

theorem variant_document {α : Type} (cases : List (String × α)) (s : String) :
    variant cases (Json.string s).document = named cases s := by
  simp only [Json.document, variant, Text.ofSymbols?_toList]

theorem integer_document {low high i : Int} (expected : String) (h) (hi : low ≤ i ∧ i ≤ high) :
    integer expected low high (Json.number (.integer i h)).document = .ok i := by
  rw [Json.document, integer, if_pos hi]

theorem unsigned_document (n : UInt64) : unsigned (Json.ofUInt64 n).document = .ok n := by
  have hrange := n.toNat_lt
  rw [unsigned, Json.ofUInt64, Json.Number.ofUInt64, integer_document _ _ (by omega)]
  show Except.ok (UInt64.ofNat (n.toNat : Int).toNat) = .ok n
  rw [Int.toNat_natCast, UInt64.ofNat_toNat]

theorem word_document (i : Int64) : word (Json.ofInt64 i).document = .ok i := by
  have hlow := i.le_toInt
  have hhigh := i.toInt_lt
  rw [word, Json.ofInt64, Json.Number.ofInt64, integer_document _ _ (by omega)]
  show Except.ok (Int64.ofInt i.toInt) = .ok i
  rw [Int64.ofInt_toInt]

/-- Any value is read, with its members in order. -/
theorem value_document (v : Json) : value none v.document = .ok v.ordered := by
  rw [value, Option.getD_none, Document.value?, if_pos (Nat.le_refl _), Json.toJson?_document]

/-- A list is read item by item. -/
theorem list_documents_map {α β : Type} {decode : Decoder β} {toJson : α → Json} {f : α → β}
    (h : ∀ a, decode (toJson a).document = .ok (f a)) (as : List α) :
    list decode (Json.array (as.map toJson)).document = .ok (as.map f) := by
  rw [Json.document, list, Json.documentsOfItems_eq, List.map_map]
  induction as with
  | nil => rfl
  | cons a as ih =>
    rw [List.map_cons, List.mapM_cons, Function.comp_apply, h a, ih]
    rfl

/-- A list of what is read back is read back. -/
theorem list_documents {α : Type} {decode : Decoder α} {toJson : α → Json}
    (h : ∀ a, decode (toJson a).document = .ok a) (as : List α) :
    list decode (Json.array (as.map toJson)).document = .ok as := by
  rw [list_documents_map h, List.map_id']

end Decoder

theorem Timestamp.decode_toJson (t : Timestamp) : decode t.toJson.document = .ok t.asRead := by
  have hread : Time.readRelaxed t.text.toList = .ok t.asRead := by
    rw [text, String.toList_ofList, Time.readRelaxed_write]
  simp only [decode, toJson, Decoder.textAs_document, bind, Except.bind, hread]
  rfl

theorem Status.decode_toJson (s : Status) : decode s.toJson.document = .ok s := by
  rw [decode, toJson, Decoder.variant_document]
  cases s <;> rfl

/-! ## Records -/

namespace Shape

variable {π α β : Type} {s : Shape π α} {filled : List Nat → π} {a : α} {seen : List Nat}
  {i j : Nat} {b default : β} {ms ms' : List (String × Json)}

/-- A field is put in with what has been read of its member. -/
theorem put_ok {x : Except DecodeError β} {f : β → π} {p : π} (hx : x = .ok b) (hf : f b = p) :
    (do return f (← x)) = (Except.ok p : Except DecodeError π) := by
  rw [hx, ← hf]
  rfl

/-- A member that has not come before is put in. -/
theorem putMembers_cons {name : String} {d : Document} {p r : π}
    (hfield : s.fields.idxOf? name = some i) (hnew : i ∉ seen)
    (hput : s.put i d p = .ok r) (ms : List (List Symbol × Document)) :
    s.putMembers seen ((Text.symbols name.toList, d) :: ms) p = s.putMembers (i :: seen) ms r := by
  simp only [putMembers, Text.ofSymbols?_toList, hfield, if_neg hnew, hput]

/-- A field has one name. -/
theorem name_eq {fields : List String} {name name' : String}
    (h : fields.idxOf? name = some i) (h' : fields.idxOf? name' = some i) : name = name' := by
  obtain ⟨_, hi, -⟩ := List.idxOf?_eq_some_iff.1 h
  obtain ⟨_, hi', -⟩ := List.idxOf?_eq_some_iff.1 h'
  rw [← hi, ← hi']

/-- What is known of a field when these fields have come. -/
def slot (seen : List Nat) (i : Nat) (b : β) : Option β := if i ∈ seen then some b else none

@[simp] theorem slot_nil : slot [] i b = none := rfl

@[simp] theorem slot_self : slot (i :: seen) i b = some b := if_pos List.mem_cons_self

theorem slot_of_ne (h : i ≠ j) : slot (j :: seen) i b = slot seen i b := by
  simp [slot, h]

theorem slot_of_mem (h : i ∈ seen) : slot seen i b = some b := if_pos h

/-- A field that has not come has its default. -/
theorem getD_slot (h : i ∈ seen ∨ b = default) : (slot seen i b).getD default = b := by
  by_cases hi : i ∈ seen
  · rw [slot_of_mem hi, Option.getD_some]
  · rw [slot, if_neg hi, Option.getD_none]
    exact (h.resolve_left hi).symm

/-- The members are those of a record: each gives a field, and together they give the record.
`filled` is what has been put together when some fields have come. -/
structure Reads (s : Shape π α) (filled : List Nat → π) (ms : List (String × Json)) (a : α) :
    Prop where
  start : s.start = filled []
  put : ∀ m ∈ ms, ∃ i, s.fields.idxOf? m.1 = some i ∧
    ∀ seen, s.put i m.2.document (filled seen) = .ok (filled (i :: seen))
  names : (ms.map (·.1)).Nodup
  finish : ∀ seen, (∀ m ∈ ms, ∀ i, s.fields.idxOf? m.1 = some i → i ∈ seen) →
    s.finish (filled seen) = .ok a

namespace Reads

/-- The order of the members does not matter. -/
theorem perm (h : s.Reads filled ms a) (hperm : ms'.Perm ms) : s.Reads filled ms' a where
  start := h.start
  put m hm := h.put m (hperm.mem_iff.1 hm)
  names := (hperm.map _).nodup_iff.2 h.names
  finish seen hseen := h.finish seen fun m hm => hseen m (hperm.mem_iff.2 hm)

/-- Member by member, with what has been put together after each. -/
theorem putMembers (h : s.Reads filled ms a) :
    ∃ seen, s.putMembers [] (Json.documentsOfMembers ms) (filled []) = .ok (filled seen) ∧
      ∀ m ∈ ms, ∀ i, s.fields.idxOf? m.1 = some i → i ∈ seen := by
  -- by induction on the members to come, none of whose fields has come
  have hrest : ∀ (rest : List (String × Json)) (seen : List Nat), (∀ m ∈ rest, m ∈ ms) →
      (rest.map (·.1)).Nodup →
      (∀ m ∈ rest, ∀ i, s.fields.idxOf? m.1 = some i → i ∉ seen) →
      ∃ seen', s.putMembers seen (Json.documentsOfMembers rest) (filled seen) =
        .ok (filled seen') ∧ (∀ i ∈ seen, i ∈ seen') ∧
        ∀ m ∈ rest, ∀ i, s.fields.idxOf? m.1 = some i → i ∈ seen' := by
    intro rest
    induction rest with
    | nil => exact fun seen _ _ _ => ⟨seen, rfl, fun _ hi => hi, by simp⟩
    | cons m rest ih =>
      intro seen hmem hnodup hfresh
      obtain ⟨n, v⟩ := m
      obtain ⟨hn, hnodup⟩ := List.nodup_cons.1 hnodup
      obtain ⟨i, hi, hput⟩ := h.put (n, v) (hmem _ List.mem_cons_self)
      have hnew : i ∉ seen := hfresh (n, v) List.mem_cons_self i hi
      -- no other member gives the field that comes now
      have hfresh' : ∀ m ∈ rest, ∀ j, s.fields.idxOf? m.1 = some j → j ∉ i :: seen := by
        intro m hm j hj hjseen
        rcases List.mem_cons.1 hjseen with rfl | hjseen
        · have hsame : m.1 = n := name_eq hj hi
          have hmem : m.1 ∈ rest.map (·.1) := List.mem_map_of_mem hm
          rw [hsame] at hmem
          exact hn hmem
        · exact hfresh m (List.mem_cons_of_mem _ hm) j hj hjseen
      obtain ⟨seen', hread, hkept, hcome⟩ :=
        ih (i :: seen) (fun m hm => hmem m (List.mem_cons_of_mem _ hm)) hnodup hfresh'
      refine ⟨seen', ?_, fun j hj => hkept j (List.mem_cons_of_mem _ hj), fun m hm j hj => ?_⟩
      · rw [Json.documentsOfMembers, putMembers_cons hi hnew (hput seen), hread]
      · rcases List.mem_cons.1 hm with rfl | hm
        · obtain rfl : i = j := Option.some.inj (hi.symm.trans hj)
          exact hkept i List.mem_cons_self
        · exact hcome m hm j hj
  obtain ⟨seen, hread, -, hcome⟩ := hrest ms [] (fun _ hm => hm) h.names (by simp)
  exact ⟨seen, hread, hcome⟩

/-- A record is read back from its members. -/
theorem decode (h : s.Reads filled ms a) (source : Source) :
    s.decode source (Json.object ms).document = .ok a := by
  obtain ⟨seen, hread, hcome⟩ := h.putMembers
  rw [Json.document, Shape.decode, h.start, bind_eq_ok]
  refine ⟨filled seen, hread, ?_⟩
  rw [h.finish seen hcome]
  rfl

end Reads

end Shape

/-! ## Two ways to read a record -/

namespace Document

theorem depth_lt_of_mem_items {items : List Document} {d : Document} (h : d ∈ items) :
    d.depth < (array items).depth := by
  have hle : d.depth ≤ depthOfItems items := by
    induction items with
    | nil => cases h
    | cons d' items ih =>
      rw [depthOfItems]
      rcases List.mem_cons.1 h with rfl | h
      · exact Nat.le_max_left _ _
      · exact Nat.le_trans (ih h) (Nat.le_max_right _ _)
  exact Nat.lt_succ_of_le hle

theorem depth_lt_of_mem_members {members : List (List Symbol × Document)}
    {m : List Symbol × Document} (h : m ∈ members) : m.2.depth < (object members).depth := by
  have hle : m.2.depth ≤ depthOfMembers members := by
    induction members with
    | nil => cases h
    | cons m' members ih =>
      rw [depthOfMembers]
      rcases List.mem_cons.1 h with rfl | h
      · exact Nat.le_max_left _ _
      · exact Nat.le_trans (ih h) (Nat.le_max_right _ _)
  exact Nat.lt_succ_of_le hle

end Document

namespace Shape

variable {π α : Type} (s : Shape π α) {put' : Nat → Document → π → Except DecodeError π}

/-- The record with its fields put in by another rule. -/
def withPut (put' : Nat → Document → π → Except DecodeError π) : Shape π α := { s with put := put' }

theorem putMembers_withPut {ms : List (List Symbol × Document)}
    (h : ∀ m ∈ ms, ∀ i p, put' i m.2 p = s.put i m.2 p) (seen : List Nat) (p : π) :
    (s.withPut put').putMembers seen ms p = s.putMembers seen ms p := by
  induction ms generalizing seen p with
  | nil => rfl
  | cons m ms ih =>
    obtain ⟨name, d⟩ := m
    have hrest := ih fun m hm => h m (List.mem_cons_of_mem _ hm)
    have hput : ∀ i p, (s.withPut put').put i d p = s.put i d p := h (name, d) List.mem_cons_self
    have hfields : (s.withPut put').fields = s.fields := rfl
    simp only [putMembers, hfields, hput, hrest]

theorem putItems_withPut {ds : List Document} (h : ∀ d ∈ ds, ∀ i p, put' i d p = s.put i d p)
    (i : Nat) (p : π) : (s.withPut put').putItems i ds p = s.putItems i ds p := by
  induction ds generalizing i p with
  | nil => rfl
  | cons d ds ih =>
    have hrest := ih fun d' hd' => h d' (List.mem_cons_of_mem _ hd')
    have hput : ∀ i p, (s.withPut put').put i d p = s.put i d p := h d List.mem_cons_self
    simp only [putItems, hput, hrest]

/-- Two rules that agree on all that stands inside a document read the same record from it, wherever
it comes from. Only the fault of an array with too many items depends on that. -/
theorem decode_withPut {source source' : Source} {d : Document}
    (h : ∀ c, c.depth < d.depth → ∀ i p, put' i c p = s.put i c p) :
    ((s.withPut put').decode source d).toOption = (s.decode source' d).toOption := by
  cases d with
  | object members =>
    rw [decode, decode,
      s.putMembers_withPut fun m hm => h m.2 (Document.depth_lt_of_mem_members hm)]
    rfl
  | array items =>
    have hitems : ∀ c ∈ items.take s.fields.length, ∀ i p, put' i c p = s.put i c p :=
      fun c hc => h c (Document.depth_lt_of_mem_items (List.mem_of_mem_take hc))
    have hfields : (s.withPut put').fields = s.fields := rfl
    have hstart : (s.withPut put').start = s.start := rfl
    have hfinish : (s.withPut put').finish = s.finish := rfl
    rw [decode, decode, hfields, hstart, hfinish, s.putItems_withPut hitems, toOption_bind,
      toOption_bind]
    -- what has been put together is the same, and too many items are refused in both
    refine Option.bind_congr fun p _ => ?_
    cases s.finish p with
    | error i => rfl
    | ok a =>
      dsimp only
      split <;> rfl
  | null => rfl
  | bool b => rfl
  | number n => rfl
  | string content => rfl

end Shape

/-- Lists are read in the same way if their items are. -/
theorem Decoder.list_toOption {α : Type} {decode decode' : Decoder α} {d : Document}
    (h : ∀ c, c.depth < d.depth → (decode c).toOption = (decode' c).toOption) :
    (list decode d).toOption = (list decode' d).toOption := by
  cases d with
  | array items =>
    have hitems : ∀ c ∈ items, (decode c).toOption = (decode' c).toOption :=
      fun c hc => h c (Document.depth_lt_of_mem_items hc)
    show (items.mapM decode).toOption = (items.mapM decode').toOption
    clear h
    induction items with
    | nil => rfl
    | cons c items ih =>
      have hhead := hitems c List.mem_cons_self
      have hrest := ih fun c' hc' => hitems c' (List.mem_cons_of_mem _ hc')
      simp only [List.mapM_cons, toOption_bind, hhead, hrest]
  | null => rfl
  | bool b => rfl
  | number n => rfl
  | string content => rfl
  | object members => rfl

/-! ## Values and texts of records -/

/-- What is written of a record is read as a record. -/
structure ReadAs {α : Type} (toJson : α → Json) (decode : Source → Decoder α) (a b : α) :
    Prop where
  /-- The compact text of the one is JSON, and the other is read from this text. -/
  text : ∃ d, Document.ofText? (toJson a).compact = some d ∧ decode .text d = .ok b
  /-- So it is read from the value with the members as they are written. -/
  value : decode .value (toJson a).document = .ok b
  /-- The text spells the value with the members in the order of their names, and so it is read
  from this one. -/
  ordered : Json.parse? (toJson a).compact = some (toJson a).ordered ∧
    decode .value (toJson a).ordered.document = .ok b

/-- A record that is read back from what is written of it. -/
abbrev ReadsBack {α : Type} (toJson : α → Json) (decode : Source → Decoder α) (a : α) : Prop :=
  ReadAs toJson decode a a

/-- What is written of a record is read as what its members are read as, if they are in order. -/
theorem Shape.Reads.readAs {π α : Type} {s : Source → Shape π α} {filled : List Nat → π}
    {a b : α} {ms : List (String × Json)} {toJson : α → Json}
    (h : ∀ source, (s source).Reads filled ms b) (htoJson : toJson a = .object ms) {n : Nat}
    (hneat : ∀ m ∈ ms, m.2.Neat n) (hn : n < Document.depthLimit) :
    ReadAs toJson (fun source => (s source).decode source) a b := by
  have hexact : (Json.object ms).Exact := Json.exactMembers_iff.2 fun m hm => (hneat m hm).exact
  have hdepth : (Json.object ms).document.depth ≤ Document.depthLimit :=
    Nat.le_trans (Nat.succ_le_succ (Json.depthOfMembers_le_iff.2 fun m hm => (hneat m hm).depth_le))
      hn
  obtain ⟨hread, hparse⟩ := Json.parse?_compact hexact hdepth
  have hordered : (Json.object ms).ordered = .object (Json.sortMembers ms) := by
    rw [Json.ordered, Json.orderedMembers_eq fun m hm => (hneat m hm).ordered_eq, Json.ofMembers]
  -- the value that the text spells has the same members in another order
  have hsorted := (h .value).perm (Json.sortMembers_perm (h .value).names)
  constructor
  · rw [htoJson]
    exact ⟨_, hread, (h .text).decode .text⟩
  · rw [htoJson]
    exact (h .value).decode .value
  · rw [htoJson]
    refine ⟨hparse, ?_⟩
    rw [hordered]
    exact hsorted.decode .value

end OrgForest
