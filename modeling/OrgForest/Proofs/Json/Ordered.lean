import OrgForest.Proofs.Json.Written

/-!
# Values with their members in order

The value that a text spells has the members of every object in the order of their names, while a
record is written field by field. So the text of a record spells the value of the record in another
order of its members, and the two differ in nothing else.

* `Json.ordered` — a value with the members of all its objects in the order of their names;
* `Json.sortMembers_perm` — putting members in order loses none of them;
* `Json.Neat` — values whose members are in order already;
* `Json.parse?_compact` — the compact text of a value spells the value in order.
-/

namespace OrgForest

namespace Json

variable {name : String} {value : Json} {ms : List (String × Json)} {vs : List Json}

/-! ## Members in order -/

/-- A member of a new name comes in next to the others. -/
theorem insertMember_perm (hnew : name ∉ ms.map (·.1)) :
    (insertMember name value ms).Perm ((name, value) :: ms) := by
  induction ms with
  | nil => exact .refl _
  | cons m ms ih =>
    obtain ⟨n, v⟩ := m
    rw [List.map_cons, List.mem_cons, not_or] at hnew
    rw [insertMember]
    split
    · exact .refl _
    · next heq => exact absurd (Std.LawfulEqOrd.eq_of_compare heq) hnew.1
    · exact ((ih hnew.2).cons (n, v)).trans (.swap (name, value) (n, v) ms)

/-- Members of different names are put in order, and none is lost. -/
theorem sortMembers_perm (hnames : (ms.map (·.1)).Nodup) : (sortMembers ms).Perm ms := by
  -- some members are in order, the others follow one by one
  have hfold : ∀ (ms done : List (String × Json)), ((ms ++ done).map (·.1)).Nodup →
      (ms.foldl (fun sorted m => insertMember m.1 m.2 sorted) done).Perm (ms ++ done) := by
    intro ms
    induction ms with
    | nil => exact fun done _ => .refl done
    | cons m ms ih =>
      intro done hnames
      rw [List.cons_append, List.map_cons, List.nodup_cons] at hnames
      have hnew : m.1 ∉ done.map (·.1) := fun hmem => hnames.1 (by simp [hmem])
      have hput : (insertMember m.1 m.2 done).Perm (m :: done) := insertMember_perm hnew
      -- the member goes over to those that are in order already
      have hmove : (ms ++ insertMember m.1 m.2 done).Perm (m :: (ms ++ done)) :=
        (hput.append_left ms).trans List.perm_middle
      have hnodup : ((ms ++ insertMember m.1 m.2 done).map (·.1)).Nodup :=
        (hmove.map _).nodup_iff.2 (List.nodup_cons.2 hnames)
      exact (ih _ hnodup).trans hmove
  have hall := hfold ms [] (by rwa [List.append_nil])
  rwa [List.append_nil] at hall

mutual

/-- A value with the members of all its objects in the order of their names. -/
def ordered : Json → Json
  | .array items => .array (orderedItems items)
  | .object members => .ofMembers (orderedMembers members)
  | .null => .null
  | .bool b => .bool b
  | .number n => .number n
  | .string s => .string s

/-- Items with all their members in order. -/
def orderedItems : List Json → List Json
  | [] => []
  | v :: vs => v.ordered :: orderedItems vs

/-- Members, in the order in which they stand, with all members inside them in order. -/
def orderedMembers : List (String × Json) → List (String × Json)
  | [] => []
  | (n, v) :: ms => (n, v.ordered) :: orderedMembers ms

end

theorem orderedItems_eq (vs : List Json) : orderedItems vs = vs.map ordered := by
  induction vs with
  | nil => rfl
  | cons v vs ih => rw [orderedItems, ih, List.map_cons]

/-- Members whose values are in order are so themselves. -/
theorem orderedMembers_eq (h : ∀ m ∈ ms, m.2.ordered = m.2) : orderedMembers ms = ms := by
  induction ms with
  | nil => rfl
  | cons m ms ih =>
    obtain ⟨n, v⟩ := m
    have hv : v.ordered = v := h (n, v) List.mem_cons_self
    rw [orderedMembers, hv, ih fun m hm => h m (List.mem_cons_of_mem _ hm)]

/-! ## The value of a document -/

mutual

/-- The document of a value has this value, in order. -/
theorem toJson?_document : ∀ v : Json, v.document.toJson? = some v.ordered
  | .null => rfl
  | .bool _ => rfl
  | .number _ => rfl
  | .string s => by rw [document, Document.toJson?, Text.ofSymbols?_toList]; rfl
  | .array items => by rw [document, Document.toJson?, toItems?_documents items]; rfl
  | .object members => by rw [document, Document.toJson?, toMembers?_documents members]; rfl

theorem toItems?_documents : ∀ vs : List Json,
    Document.toItems? (documentsOfItems vs) = some (orderedItems vs)
  | [] => rfl
  | v :: vs => by
    rw [documentsOfItems, Document.toItems?, toJson?_document v, toItems?_documents vs]
    rfl

theorem toMembers?_documents : ∀ ms : List (String × Json),
    Document.toMembers? (documentsOfMembers ms) = some (orderedMembers ms)
  | [] => rfl
  | (n, v) :: ms => by
    rw [documentsOfMembers, Document.toMembers?, Text.ofSymbols?_toList, toJson?_document v,
      toMembers?_documents ms]
    rfl

end

/-- The compact text of a value that is not nested too deep spells the value in order. -/
theorem parse?_compact {v : Json} (hv : v.Exact) (hdepth : v.document.depth ≤ Document.depthLimit) :
    Document.ofText? v.compact = some v.document ∧ parse? v.compact = some v.ordered := by
  have hread : Document.ofText? v.compact = some v.document := by
    rw [Document.ofText?, compact, String.toList_ofList, Document.ofSymbols?_write hv]
  refine ⟨hread, ?_⟩
  rw [parse?, hread, Option.bind_some, Document.value?, if_pos hdepth, toJson?_document]

/-! ## Lists of values -/

theorem exactItems_iff : ExactItems vs ↔ ∀ v ∈ vs, v.Exact := by
  induction vs with
  | nil => simp [ExactItems]
  | cons v vs ih => simp [ExactItems, ih]

theorem exactMembers_iff : ExactMembers ms ↔ ∀ m ∈ ms, m.2.Exact := by
  induction ms with
  | nil => simp [ExactMembers]
  | cons m ms ih => simp [ExactMembers, ih]

theorem documentsOfItems_eq (vs : List Json) : documentsOfItems vs = vs.map document := by
  induction vs with
  | nil => rfl
  | cons v vs ih => rw [documentsOfItems, ih, List.map_cons]

theorem depthOfItems_le_iff {n : Nat} :
    Document.depthOfItems (documentsOfItems vs) ≤ n ↔ ∀ v ∈ vs, v.document.depth ≤ n := by
  induction vs with
  | nil => simp [documentsOfItems, Document.depthOfItems]
  | cons v vs ih => simp [documentsOfItems, Document.depthOfItems, ih]

theorem depthOfMembers_le_iff {n : Nat} :
    Document.depthOfMembers (documentsOfMembers ms) ≤ n ↔ ∀ m ∈ ms, m.2.document.depth ≤ n := by
  induction ms with
  | nil => simp [documentsOfMembers, Document.depthOfMembers]
  | cons m ms ih => simp [documentsOfMembers, Document.depthOfMembers, ih]

/-! ## Values that are in order -/

/-- A value without doubles, with the members of all its objects in order, and nested no deeper than
`n`. -/
structure Neat (n : Nat) (v : Json) : Prop where
  exact : v.Exact
  ordered_eq : v.ordered = v
  depth_le : v.document.depth ≤ n

theorem neat_string (n : Nat) (s : String) : Neat n (.string s) := ⟨trivial, rfl, Nat.zero_le _⟩

theorem neat_ofUInt64 (n : Nat) (i : UInt64) : Neat n (ofUInt64 i) := ⟨trivial, rfl, Nat.zero_le _⟩

theorem neat_ofInt64 (n : Nat) (i : Int64) : Neat n (ofInt64 i) := ⟨trivial, rfl, Nat.zero_le _⟩

theorem neat_array {n : Nat} (h : ∀ v ∈ vs, Neat n v) : Neat (n + 1) (.array vs) where
  exact := exactItems_iff.2 fun v hv => (h v hv).exact
  ordered_eq := by
    rw [ordered, orderedItems_eq, List.map_congr_left fun v hv => (h v hv).ordered_eq, List.map_id']
  depth_le := Nat.succ_le_succ (depthOfItems_le_iff.2 fun v hv => (h v hv).depth_le)

theorem neat_object {n : Nat} (h : ∀ m ∈ ms, Neat n m.2) (hsorted : sortMembers ms = ms) :
    Neat (n + 1) (.object ms) where
  exact := exactMembers_iff.2 fun m hm => (h m hm).exact
  ordered_eq := by
    rw [ordered, orderedMembers_eq fun m hm => (h m hm).ordered_eq, ofMembers, hsorted]
  depth_le := Nat.succ_le_succ (depthOfMembers_le_iff.2 fun m hm => (h m hm).depth_le)

end Json

end OrgForest
