import OrgForest.Proofs.Hierarchy.Way
import OrgForest.Proofs.Store.Outcome

/-!
# The forest in a store

A record names its parent, and the index of children is kept beside the records. The records form a
forest if every one of them has a lineage; the index is then the other side of the same links. Both
hold together, since each change of a link is checked against the one and made in the other.

* `Store.lineage_of_written`, `Store.lineage_of_erased` — what a change of one record does to the
  lineages of all;
* `Store.Linked` — records, links and the index of children;
* `Store.Linked.added`, `Store.Linked.replaced`, `Store.Linked.moved`, `Store.Linked.removed` — what
  keeps them in step;
* `Store.exists_way`, `Store.isOnChain_of_way` — the store's own walk up, whatever its links are;
* `Store.isOnChain_eq` — it finds lineages.
-/

namespace OrgForest.Store

variable {s : Store}

/-! ## Links of records -/

theorem parentId?_eq_some {id : String} {p : Option String} :
    s.parentId? id = some p ↔ ∃ o, s.organizations.get? id = some o ∧ o.parentId = p := by
  simp [parentId?, Option.map_eq_some_iff]

theorem contains_of_parentId? {id : String} {p : Option String} (h : s.parentId? id = some p) :
    s.organizations.contains id = true := by
  obtain ⟨o, ho, -⟩ := parentId?_eq_some.1 h
  exact Table.contains_of_get? ho

/-- Every member of a lineage has a record. -/
theorem contains_of_mem {id x : String} {chain : Chain} (h : Lineage s.parentId? id chain)
    (hx : x ∈ chain) : s.organizations.contains x = true := by
  obtain ⟨p, hp⟩ := h.known hx
  exact contains_of_parentId? hp

theorem not_mem_of_new {id x : String} {chain : Chain} (h : Lineage s.parentId? id chain)
    (hnew : s.organizations.contains x = false) : x ∉ chain := by
  intro hx
  rw [contains_of_mem h hx] at hnew
  simp at hnew

theorem length_le_of_lineage {id : String} {chain : Chain} (h : Lineage s.parentId? id chain) :
    chain.length ≤ s.organizations.size :=
  Table.length_le_size h.nodup fun _ hx => contains_of_mem h hx

/-- A record that the store holds, under its own id. -/
def Holds (s : Store) (o : Organization) : Prop := s.organizations.get? o.id = some o

instance (s : Store) (o : Organization) : Decidable (s.Holds o) :=
  inferInstanceAs (Decidable (s.organizations.get? o.id = some o))

/-- An id that stands for an active record. -/
def Active (s : Store) (id : String) : Prop :=
  ∃ o, s.organizations.get? id = some o ∧ o.isActive = true

instance (s : Store) (id : String) : Decidable (s.Active id) :=
  decidable_of_iff ((s.organizations.get? id).any (·.isActive) = true) (Option.any_eq_true ..)

theorem contains_of_active {id : String} (h : s.Active id) :
    s.organizations.contains id = true := by
  obtain ⟨o, ho, -⟩ := h
  exact Table.contains_of_get? ho

/-- An id whose lineage starts at a root stands in the hierarchy of that root. -/
def InHierarchy (s : Store) (root id : String) : Prop :=
  ∃ chain, Lineage s.parentId? id chain ∧ chain.head? = some root

theorem InHierarchy.unique {r r' id : String} (h : s.InHierarchy r id) (h' : s.InHierarchy r' id) :
    r = r' := by
  obtain ⟨chain, hchain, hr⟩ := h
  obtain ⟨chain', hchain', hr'⟩ := h'
  rw [hchain.unique hchain', hr'] at hr
  exact (Option.some.inj hr).symm

/-! ## Lineages when one record changes -/

section Written

variable {s' : Store} {o : Organization} (h : s'.organizations = s.organizations.insert o.id o)

include h

/-- The links of a store in which one record was written. -/
theorem parentId?_of_written (x : String) :
    s'.parentId? x = if x = o.id then some o.parentId else s.parentId? x := by
  rw [parentId?, h, Table.get?_insert]
  split <;> rfl

theorem holds_of_written {q : Organization} : s'.Holds q ↔ q = o ∨ q.id ≠ o.id ∧ s.Holds q := by
  rw [Holds, h, Table.get?_insert]
  by_cases hid : q.id = o.id
  · simp only [hid, if_true, Option.some_inj, ne_eq, not_true_eq_false, false_and, or_false]
    exact eq_comm
  · have hne : q ≠ o := fun heq => hid (heq ▸ rfl)
    simp [hid, hne, Holds]

theorem active_of_written {x : String} :
    s'.Active x ↔ x = o.id ∧ o.isActive = true ∨ x ≠ o.id ∧ s.Active x := by
  simp only [Active, h, Table.get?_insert]
  by_cases hx : x = o.id <;> simp [hx]

/-- Writing a record under the parent that it had leaves all links as they are. -/
theorem parentId?_of_kept {existing : Organization}
    (hget : s.organizations.get? o.id = some existing) (hparent : existing.parentId = o.parentId) :
    s'.parentId? = s.parentId? := by
  funext x
  rw [parentId?_of_written h]
  split
  · next hx => rw [hx, parentId?, hget, ← hparent]; rfl
  · rfl

theorem lineage_of_root (hp : o.parentId = none) : Lineage s'.parentId? o.id [o.id] :=
  .root (by rw [parentId?_of_written h, if_pos rfl, hp])

/-- A lineage that does not lead through the written record stays. -/
theorem lineage_of_apart {x : String} {c : Chain} (hx : Lineage s.parentId? x c)
    (hnot : o.id ∉ c) : Lineage s'.parentId? x c := by
  refine hx.congr fun y hy => ?_
  rw [parentId?_of_written h, if_neg]
  rintro rfl
  exact hnot hy

/-- The written record stands at the end of the lineage of its parent, if it is not in it. -/
theorem lineage_of_child {p : String} {chain : Chain} (hp : o.parentId = some p)
    (hchain : Lineage s.parentId? p chain) (hnot : o.id ∉ chain) :
    Lineage s'.parentId? o.id (chain ++ [o.id]) :=
  .child (by rw [parentId?_of_written h, if_pos rfl, hp]) (lineage_of_apart h hchain hnot)

/-- A lineage without the written record stays, and one with it gets the record's new front. -/
theorem lineage_of_written {front' : Chain} (hnew : Lineage s'.parentId? o.id front') {x : String}
    {c : Chain} (hx : Lineage s.parentId? x c) :
    o.id ∉ c ∧ Lineage s'.parentId? x c ∨
      ∃ front rest, c = front ++ rest ∧ Lineage s.parentId? o.id front ∧
        Lineage s'.parentId? x (front' ++ rest) := by
  by_cases hmem : o.id ∈ c
  · -- cut at the written record, and put on its new lineage
    have hsame : ∀ y, y ≠ o.id → s'.parentId? y = s.parentId? y :=
      fun y hy => by rw [parentId?_of_written h, if_neg hy]
    obtain ⟨front, rest, rfl, hfront⟩ := hx.split hmem
    exact .inr ⟨front, rest, rfl, hfront, hfront.regraft hsame hnew hx⟩
  · exact .inl ⟨hmem, lineage_of_apart h hx hmem⟩

/-- A new record leaves all lineages as they are. -/
theorem lineage_of_new (hfresh : s.organizations.contains o.id = false) {x : String} {c : Chain}
    (hx : Lineage s.parentId? x c) : Lineage s'.parentId? x c :=
  lineage_of_apart h hx (not_mem_of_new hx hfresh)

end Written

section Erased

variable {s' : Store} {id : String} (h : s'.organizations = s.organizations.erase id)

include h

theorem get?_of_erased {x : String} {o : Organization} :
    s'.organizations.get? x = some o ↔ x ≠ id ∧ s.organizations.get? x = some o := by
  rw [h, Table.get?_erase]
  by_cases hx : x = id <;> simp [hx]

theorem parentId?_of_erased {x : String} {p : Option String} :
    s'.parentId? x = some p ↔ x ≠ id ∧ s.parentId? x = some p := by
  simp only [parentId?_eq_some, get?_of_erased h, and_assoc, exists_and_left]

theorem active_of_erased {x : String} : s'.Active x ↔ x ≠ id ∧ s.Active x := by
  simp only [Active, get?_of_erased h, and_assoc, exists_and_left]

/-- All that is left of the forest was there before. -/
theorem lineage_before_erased {x : String} {c : Chain} (hx : Lineage s'.parentId? x c) :
    Lineage s.parentId? x c := by
  refine hx.congr fun y hy => ?_
  obtain ⟨p, hp⟩ := hx.known hy
  rw [hp, ((parentId?_of_erased h).1 hp).2]

/-- Without a leaf of the forest all other lineages stay. -/
theorem lineage_of_erased
    (hleaf : ∀ x, s.parentId? x ≠ some (some id)) {x : String} {c : Chain} (hne : x ≠ id)
    (hx : Lineage s.parentId? x c) : Lineage s'.parentId? x c := by
  refine hx.congr_of_childless hleaf (fun y hy => ?_) hne
  rw [parentId?, h, Table.get?_erase, if_neg hy]
  rfl

end Erased

/-! ## Walking up -/

/-- However broken its links are, there is a way up from every id of a store. -/
theorem exists_way (s : Store) {met : List String} (hnd : met.Nodup)
    (hknown : ∀ x ∈ met, s.organizations.contains x = true) (id : String) :
    ∃ way last, Way s.parentId? met id way last := by
  cases hup : s.parentId? id with
  | none =>
    refine ⟨_, _, .missing (fun hmem => ?_) hup⟩
    obtain ⟨o, ho⟩ := Table.contains_iff.1 (hknown id hmem)
    rw [parentId?_eq_some.2 ⟨o, ho, rfl⟩] at hup
    cases hup
  | some parent =>
    by_cases hmem : id ∈ met
    · exact ⟨_, _, .again hmem hup⟩
    · cases parent with
      | none => exact ⟨_, _, .root hmem hup⟩
      | some parent =>
        have hnd' : (id :: met).Nodup := List.nodup_cons.2 ⟨hmem, hnd⟩
        have hknown' : ∀ x ∈ id :: met, s.organizations.contains x = true :=
          List.forall_mem_cons.2 ⟨contains_of_parentId? hup, hknown⟩
        -- there are no more ids with a record than records, so one that was not met is left
        have hroom : met.length < s.organizations.size := Table.length_le_size hnd' hknown'
        obtain ⟨way, last, habove⟩ := exists_way s hnd' hknown' parent
        exact ⟨_, _, .link hmem hup habove⟩
termination_by s.organizations.size - met.length
decreasing_by exact Nat.sub_lt_sub_left hroom (Nat.lt_succ_self _)

/-- A way goes through no more ids than there are records. -/
theorem length_le_of_way {id : String} {way : List String} {last : WayEnd}
    (h : Way s.parentId? [] id way last) : way.length ≤ s.organizations.size := by
  have hnd := h.nodup List.nodup_nil
  rw [List.append_nil, (List.reverse_perm way).nodup_iff] at hnd
  refine Table.length_le_size hnd fun x hx => ?_
  obtain ⟨parent, hparent⟩ := h.known x hx
  exact contains_of_parentId? hparent

/-- What a walk up within the store comes to that has not met what it was looking for. -/
def missedUpTo : WayEnd → Except StoreError Bool
  | .again x => .error (.corruption x "parent chain contains a cycle")
  | _ => .ok false

/-- A walk up within the store finds what is on the way, or missing at its end. Otherwise it reports
a way that comes round again. -/
theorem climbsTo_of_way {here ancestor : String} {met way : List String} {last : WayEnd}
    (h : Way s.parentId? met here way last) {fuel : Nat} (hfuel : way.length < fuel)
    (hmet : ancestor ∉ met) : s.climbsTo ancestor fuel met here =
      if ancestor ∈ way ∨ last = .missing ancestor then .ok true else missedUpTo last := by
  -- along the way, with a round for each of its ids and one for its end
  induction h generalizing fuel with
  | @root met id hnew hup =>
    obtain ⟨fuel, rfl⟩ := Nat.exists_eq_add_of_lt hfuel
    obtain ⟨o, ho, hparent⟩ := parentId?_eq_some.1 hup
    by_cases hid : id = ancestor
    · simp [climbsTo, hid]
    · simp [climbsTo, hid, hnew, ho, hparent, Ne.symm hid, missedUpTo]
  | @missing met id hnew hup =>
    obtain ⟨fuel, rfl⟩ := Nat.exists_eq_add_of_lt hfuel
    have hnone : s.organizations.get? id = none := Option.map_eq_none_iff.1 hup
    by_cases hid : id = ancestor
    · simp [climbsTo, hid]
    · simp [climbsTo, hid, hnew, hnone, missedUpTo]
  | @again met id parent hmem hup =>
    obtain ⟨fuel, rfl⟩ := Nat.exists_eq_add_of_lt hfuel
    have hid : id ≠ ancestor := by
      rintro rfl
      exact hmet hmem
    simp [climbsTo, hid, hmem, missedUpTo]
  | @link met way id parent last hnew hup above ih =>
    obtain ⟨fuel, rfl⟩ := Nat.exists_eq_add_of_lt hfuel
    obtain ⟨o, ho, hparent⟩ := parentId?_eq_some.1 hup
    by_cases hid : id = ancestor
    · simp [climbsTo, hid]
    · have hnot : ancestor ∉ id :: met := mt List.mem_cons.1 (not_or.2 ⟨Ne.symm hid, hmet⟩)
      have hrest := @ih (way.length + 1 + fuel) (by omega) hnot
      simp [climbsTo, hid, hnew, ho, hparent, hrest, Ne.symm hid]

/-- A walk up within the store from the start of a way. -/
theorem isOnChain_of_way {id ancestor : String} {way : List String} {last : WayEnd}
    (h : Way s.parentId? [] id way last) : s.isOnChain id ancestor =
      if ancestor ∈ way ∨ last = .missing ancestor then .ok true else missedUpTo last := by
  have hsize := length_le_of_way h
  exact climbsTo_of_way h (Nat.lt_add_right 1 (Nat.lt_succ_of_le hsize)) List.not_mem_nil

/-- Where there is a lineage, it finds exactly what is in it. -/
theorem isOnChain_eq {id ancestor : String} {chain : Chain} (h : Lineage s.parentId? id chain) :
    s.isOnChain id ancestor = .ok (decide (ancestor ∈ chain)) := by
  rw [isOnChain_of_way (Way.of_lineage h fun _ _ => List.not_mem_nil)]
  by_cases hmem : ancestor ∈ chain <;> simp [hmem, missedUpTo]

/-! ## Records, links and children -/

/-- The records form a forest, and the index of children agrees with it. -/
structure Linked (s : Store) : Prop where
  /-- Every record is stored under its own id. -/
  ownId : ∀ id o, s.organizations.get? id = some o → o.id = id
  /-- Following the parent links of any record comes to a root. -/
  rooted : ∀ id o, s.organizations.get? id = some o → ∃ chain, Lineage s.parentId? id chain
  /-- The children of an id are the records that name it, each at the place of its creation. -/
  indexed : ∀ p key, (s.childSet p).contains key = true ↔
    ∃ o, s.organizations.get? key.id = some o ∧ o.parentId = some p ∧ ChildKey.of o = key
  tight : Tight s.children

namespace Linked

theorem lineage (h : s.Linked) {id : String} (hid : s.organizations.contains id = true) :
    ∃ chain, Lineage s.parentId? id chain := by
  obtain ⟨o, ho⟩ := Table.contains_iff.1 hid
  exact h.rooted id o ho

theorem get?_own (h : s.Linked) {id : String} {o : Organization}
    (ho : s.organizations.get? id = some o) : s.Holds o := by
  rw [Holds, h.ownId id o ho, ho]

theorem inHierarchy (h : s.Linked) {id : String} (hid : s.organizations.contains id = true) :
    ∃ root, s.InHierarchy root id := by
  obtain ⟨chain, hchain⟩ := h.lineage hid
  obtain ⟨root, hroot, -⟩ := hchain.head?_root
  exact ⟨root, chain, hchain, hroot⟩

/-- The records that the store holds are all its records. -/
theorem holds_iff (h : s.Linked) {o : Organization} :
    s.Holds o ↔ o ∈ s.organizations.values := by
  rw [Table.mem_values]
  exact ⟨fun ho => ⟨o.id, ho⟩, fun ⟨_, ho⟩ => h.get?_own ho⟩

theorem mem_named (h : s.Linked) {name : String} {o : Organization} :
    o ∈ s.named name ↔ s.Holds o ∧ o.name = name := by
  rw [named, List.mem_mergeSort, List.mem_filter, ← h.holds_iff, beq_iff_eq]

theorem nodup_named (h : s.Linked) (name : String) : (s.named name).Nodup := by
  -- values of a table may repeat, but records carry their keys
  have hkeys : s.organizations.values.map (·.id) = s.organizations.keys := by
    rw [Table.values, Table.keys, List.map_map]
    exact List.map_congr_left fun e he => h.ownId e.1 e.2 (Table.mem_entries.1 he)
  have hvalues : s.organizations.values.Nodup := by
    have hnodup := Table.nodup_keys s.organizations
    rw [← hkeys] at hnodup
    exact List.Pairwise.of_map _ (fun _ _ hne heq => hne (congrArg _ heq)) hnodup
  exact (List.mergeSort_perm _ _).nodup_iff.2 (hvalues.filter _)

/-- The index of children is the other side of the links. -/
theorem mem_childIds (h : s.Linked) {p id : String} :
    id ∈ s.childIds p ↔ s.parentId? id = some (some p) := by
  rw [childIds, List.mem_map, parentId?_eq_some]
  constructor
  · rintro ⟨key, hkey, rfl⟩
    obtain ⟨o, ho, hparent, -⟩ := (h.indexed p key).1 (Table.mem_keys.1 hkey)
    exact ⟨o, ho, hparent⟩
  · rintro ⟨o, ho, hparent⟩
    refine ⟨.of o, Table.mem_keys.2 ?_, h.ownId id o ho⟩
    exact (h.indexed p _).2 ⟨o, h.get?_own ho, hparent, rfl⟩

/-- The parent of a record is there, with a lineage that does not lead through the record. -/
theorem lineage_of_parent (h : s.Linked) {o : Organization} (ho : s.Holds o) {p : String}
    (hp : o.parentId = some p) : ∃ chain, Lineage s.parentId? p chain ∧ o.id ∉ chain := by
  have hup : s.parentId? o.id = some (some p) := parentId?_eq_some.2 ⟨o, ho, hp⟩
  obtain ⟨chain, hchain⟩ := h.rooted o.id o ho
  obtain ⟨above, -, habove⟩ := hchain.eq_of_child hup
  exact ⟨above, habove, Lineage.not_mem_above hup habove⟩

/-- A set of children is kept for records only. -/
theorem owned (h : s.Linked) {p : String} (hp : s.children.contains p = true) :
    s.organizations.contains p = true := by
  -- the set has a child in it, and the parent of a record is in its lineage
  obtain ⟨set, hset⟩ := Table.contains_iff.1 hp
  obtain ⟨key, hkey⟩ := Table.isEmpty_eq_false.1 (h.tight p set hset)
  have hmem : (s.childSet p).contains key = true := by
    rw [childSet, hset]
    exact hkey
  obtain ⟨o, ho, hparent, -⟩ := (h.indexed p key).1 hmem
  obtain ⟨chain, hchain, -⟩ := h.lineage_of_parent (h.get?_own ho) hparent
  exact contains_of_mem hchain hchain.mem_self

/-! ## Records and links under changes -/

section Written

variable {s' : Store} {o : Organization}
  (hwritten : s'.organizations = s.organizations.insert o.id o)

include hwritten

theorem ownId_of_written (h : s.Linked) (id : String) (o' : Organization)
    (ho' : s'.organizations.get? id = some o') : o'.id = id := by
  rw [hwritten, Table.get?_insert] at ho'
  split at ho'
  · next hid => rw [hid, ← Option.some.inj ho']
  · exact h.ownId id o' ho'

/-- If the written record has a lineage, all records have one. -/
theorem rooted_of_written (h : s.Linked) {front : Chain}
    (hnew : Lineage s'.parentId? o.id front) (id : String) (o' : Organization)
    (ho' : s'.organizations.get? id = some o') : ∃ chain, Lineage s'.parentId? id chain := by
  rw [hwritten, Table.get?_insert] at ho'
  split at ho'
  · next hid => exact ⟨front, hid ▸ hnew⟩
  · obtain ⟨chain, hchain⟩ := h.rooted id o' ho'
    rcases lineage_of_written hwritten hnew hchain with ⟨-, hkept⟩ | ⟨_, _, -, -, hmoved⟩
    · exact ⟨_, hkept⟩
    · exact ⟨_, hmoved⟩

end Written

/-- A new record may come below any record, or become a root. -/
theorem added (h : s.Linked) {o : Organization} (b : TenantBinding)
    (hnew : s.organizations.contains o.id = false)
    (hparent : ∀ p, o.parentId = some p → s.organizations.contains p = true) :
    (s.added o b).Linked := by
  have hwritten : (s.added o b).organizations = s.organizations.insert o.id o := rfl
  -- the new record stands at the end of its parent's lineage
  have hplaced : ∃ front, Lineage (s.added o b).parentId? o.id front := by
    cases hp : o.parentId with
    | none => exact ⟨_, lineage_of_root hwritten hp⟩
    | some p =>
      obtain ⟨chain, hchain⟩ := h.lineage (hparent p hp)
      exact ⟨_, lineage_of_child hwritten hp hchain (not_mem_of_new hchain hnew)⟩
  obtain ⟨front, hfront⟩ := hplaced
  refine ⟨ownId_of_written hwritten h, rooted_of_written hwritten h hfront, fun p key => ?_,
    tight_linked h.tight o⟩
  show (childrenIn (linked s.children o) p).contains key = true ↔
    ∃ o', (s.organizations.insert o.id o).get? key.id = some o' ∧ _
  rw [contains_linked, show childrenIn s.children p = s.childSet p from rfl, h.indexed p key,
    Table.get?_insert]
  by_cases hkey : key.id = o.id
  · -- under the new id there was no record, so no child either
    have hnone := Table.contains_eq_false.1 hnew
    rw [if_pos hkey, hkey, hnone]
    simp [eq_comm]
  · rw [if_neg hkey]
    have hne : key ≠ .of o := fun heq => hkey (heq ▸ rfl)
    simp [hne]

/-- Rewriting a record in its place leaves all links as they are. -/
theorem replaced (h : s.Linked) {o existing : Organization}
    (hget : s.organizations.get? o.id = some existing) (hcreated : o.created = existing.created)
    (hparent : existing.parentId = o.parentId) : (s.replaced o).Linked := by
  have hwritten : (s.replaced o).organizations = s.organizations.insert o.id o := rfl
  -- the index has the record under the time of its creation, which no update changes
  have hof : ChildKey.of o = ChildKey.of existing := by
    rw [ChildKey.of, ChildKey.of, hcreated, h.ownId _ _ hget]
  have hplaced : ∃ front, Lineage (s.replaced o).parentId? o.id front := by
    rw [parentId?_of_kept hwritten hget hparent]
    exact h.rooted o.id existing hget
  obtain ⟨front, hfront⟩ := hplaced
  refine ⟨ownId_of_written hwritten h, rooted_of_written hwritten h hfront, fun p key => ?_,
    h.tight⟩
  rw [show (s.replaced o).childSet p = s.childSet p from rfl, h.indexed p key]
  rw [Store.replaced, Table.get?_insert]
  split
  · next hkey => simp [hkey, hget, hparent, hof]
  · rfl

/-- A record may go below any record that is not below it, or become a root. -/
theorem moved (h : s.Linked) {o existing : Organization}
    (hget : s.organizations.get? o.id = some existing) (hcreated : o.created = existing.created)
    (hparent : ∀ p, o.parentId = some p → ∃ chain, Lineage s.parentId? p chain ∧ o.id ∉ chain) :
    (s.moved existing o).Linked := by
  have hwritten : (s.moved existing o).organizations = s.organizations.insert o.id o := rfl
  have hof : ChildKey.of o = ChildKey.of existing := by
    rw [ChildKey.of, ChildKey.of, hcreated, h.ownId _ _ hget]
  -- the new lineage of the moved record, which does not use its old one
  have hplaced : ∃ front, Lineage (s.moved existing o).parentId? o.id front := by
    cases hp : o.parentId with
    | none => exact ⟨_, lineage_of_root hwritten hp⟩
    | some p =>
      obtain ⟨chain, hchain, hnot⟩ := hparent p hp
      exact ⟨_, lineage_of_child hwritten hp hchain hnot⟩
  obtain ⟨front, hfront⟩ := hplaced
  refine ⟨ownId_of_written hwritten h, rooted_of_written hwritten h hfront, fun p key => ?_,
    tight_linked (tight_unlinked h.tight existing) o⟩
  show (childrenIn (linked (unlinked s.children existing) o) p).contains key = true ↔
    ∃ o', (s.organizations.insert o.id o).get? key.id = some o' ∧ _
  rw [contains_linked, contains_unlinked, show childrenIn s.children p = s.childSet p from rfl,
    h.indexed p key, Table.get?_insert, ← hof]
  by_cases hkey : key.id = o.id
  · rw [if_pos hkey, hkey, hget]
    simp only [Option.some_inj, exists_eq_left']
    -- the moved record is taken out under its old key before it is put in under its new parent
    constructor
    · rintro (⟨hp, hkey⟩ | ⟨hnot, hp, hkey⟩)
      · exact ⟨hp, hkey.symm⟩
      · exact absurd ⟨hp, (hof.trans hkey).symm⟩ hnot
    · rintro ⟨hp, hkey⟩
      exact .inl ⟨hp, hkey.symm⟩
  · rw [if_neg hkey]
    have hne : key ≠ .of o := fun heq => hkey (heq ▸ rfl)
    simp [hne]

theorem childless (h : s.Linked) {id : String} (hleaf : (s.childSet id).size = 0) (x : String) :
    s.parentId? x ≠ some (some id) := by
  intro hx
  obtain ⟨o, ho, hp⟩ := parentId?_eq_some.1 hx
  have hmem := (h.indexed id (.of o)).2 ⟨o, h.get?_own ho, hp, rfl⟩
  rw [Table.size_eq_zero.1 hleaf] at hmem
  simp at hmem

/-- Without a leaf the records still form a forest. -/
theorem removed (h : s.Linked) {existing : Organization} (b : TenantBinding)
    (hget : s.organizations.get? existing.id = some existing)
    (hleaf : (s.childSet existing.id).size = 0) : (s.removed existing b).Linked := by
  have herased : (s.removed existing b).organizations = s.organizations.erase existing.id := rfl
  have hold : ∀ {x o}, (s.removed existing b).organizations.get? x = some o →
      x ≠ existing.id ∧ s.organizations.get? x = some o := (get?_of_erased herased).1
  refine ⟨fun id o ho => h.ownId id o (hold ho).2, fun id o ho => ?_, fun p key => ?_,
    tight_unlinked h.tight existing⟩
  · obtain ⟨hne, ho⟩ := hold ho
    obtain ⟨chain, hchain⟩ := h.rooted id o ho
    exact ⟨chain, lineage_of_erased herased (h.childless hleaf) hne hchain⟩
  · show (childrenIn (unlinked s.children existing) p).contains key = true ↔
      ∃ o, (s.organizations.erase existing.id).get? key.id = some o ∧ _
    rw [contains_unlinked, show childrenIn s.children p = s.childSet p from rfl, h.indexed p key,
      Table.get?_erase]
    by_cases hkey : key.id = existing.id
    · -- the record stood under one key of its parent, and that one has been taken out
      rw [if_pos hkey, hkey, hget]
      simp only [Option.some_inj, exists_eq_left', reduceCtorEq, false_and, exists_false, iff_false]
      rintro ⟨hnot, hp, hkey⟩
      exact hnot ⟨hp, hkey.symm⟩
    · rw [if_neg hkey]
      have hne : key ≠ .of existing := fun heq => hkey (heq ▸ rfl)
      simp [hne]

end Linked

end OrgForest.Store
