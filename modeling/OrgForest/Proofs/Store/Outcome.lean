import OrgForest.Program.Call
import OrgForest.Proofs.Table

/-!
# What changes of a store amount to

A change is refused, and then nothing has happened, or it is accepted, and then the new store is
known table by table. Each of the changes has one lemma here that says so, guards included; nothing
else opens the definitions of the changes.

* `Store.insert_cases`, `Store.update_cases`, `Store.delete_cases` — refused or accepted;
* `Store.added`, `Store.replaced`, `Store.moved`, `Store.removed` — the stores after acceptance;
* `Store.insert_eq`, `Store.update_eq`, `Store.delete_eq` — what is accepted;
* `Store.index_ext` — an index is known by the children in it;
* `contains_linked`, `contains_unlinked` — what becomes of the index of children.
-/

namespace OrgForest

namespace Organization

/-- The form in which a new organization is stored. -/
def asFirst (o : Organization) : Organization := { o.bare with version := 1 }

/-- The form in which an organization is stored over an older one. -/
def asNext (o existing : Organization) : Organization :=
  { o.bare with created := existing.created, version := existing.version + 1 }

@[simp] theorem asFirst_id (o : Organization) : o.asFirst.id = o.id := rfl

@[simp] theorem asFirst_parentId (o : Organization) : o.asFirst.parentId = o.parentId := rfl

@[simp] theorem asNext_id (o existing : Organization) : (o.asNext existing).id = o.id := rfl

@[simp] theorem asNext_created (o existing : Organization) :
    (o.asNext existing).created = existing.created := rfl

@[simp] theorem asNext_parentId (o existing : Organization) :
    (o.asNext existing).parentId = o.parentId := rfl

end Organization

namespace Store

/-! ## The stores after a change -/

/-- The store after an insertion. -/
def added (s : Store) (o : Organization) (b : TenantBinding) : Store where
  organizations := s.organizations.insert o.id o
  children := linked s.children o
  bindings := s.bindings.insert o.id b
  domains := s.domains.insert b.tenantDomain o.id
  tenantIds := s.tenantIds.insert b.tenantId o.id
  structureVersion := s.structureVersion + 1

/-- The store after an update that keeps the parent. -/
def replaced (s : Store) (o : Organization) : Store :=
  { s with organizations := s.organizations.insert o.id o }

/-- The store after an update that takes a record to another parent. -/
def moved (s : Store) (existing o : Organization) : Store :=
  { s with
    organizations := s.organizations.insert o.id o
    children := linked (unlinked s.children existing) o
    structureVersion := s.structureVersion + 1 }

/-- The store after an update, whether or not it takes the record to another parent. -/
def rewritten (s : Store) (existing o : Organization) : Store :=
  if existing.parentId = o.parentId then s.replaced o else s.moved existing o

/-- The store after a deletion. -/
def removed (s : Store) (existing : Organization) (b : TenantBinding) : Store where
  organizations := s.organizations.erase existing.id
  children := unlinked s.children existing
  bindings := s.bindings.erase existing.id
  domains := s.domains.erase b.tenantDomain
  tenantIds := s.tenantIds.erase b.tenantId
  structureVersion := s.structureVersion + 1

theorem rewritten_of_kept {s : Store} {existing o : Organization}
    (h : existing.parentId = o.parentId) : s.rewritten existing o = s.replaced o := if_pos h

@[simp] theorem rewritten_organizations (s : Store) (existing o : Organization) :
    (s.rewritten existing o).organizations = s.organizations.insert o.id o := by
  unfold rewritten
  split <;> rfl

@[simp] theorem rewritten_bindings (s : Store) (existing o : Organization) :
    (s.rewritten existing o).bindings = s.bindings := by
  unfold rewritten
  split <;> rfl

/-! ## Refused or accepted -/

/-- A binding that conflicts with nothing is of the organization itself, and new in every table. -/
theorem conflict?_eq_none {s : Store} {id : String} {b : TenantBinding} :
    s.conflict? id b = none ↔ b.organizationId = id ∧ s.bindings.contains id = false ∧
      s.domains.get? b.tenantDomain = none ∧ s.tenantIds.get? b.tenantId = none := by
  unfold conflict?
  split
  · next hother => simp [hother]
  · next hown =>
    rw [ne_eq, Decidable.not_not] at hown
    split
    · next hbound => simp [hbound]
    · next hfree =>
      rw [Bool.not_eq_true] at hfree
      cases hdomain : s.domains.get? b.tenantDomain <;> simp [hown, hfree]

theorem hasParentOf_iff {s : Store} {o : Organization} :
    s.hasParentOf o = true ↔ ∀ p, o.parentId = some p → s.organizations.contains p = true := by
  unfold hasParentOf
  cases o.parentId <;> simp

theorem insert_cases (s : Store) (o : Organization) (b : TenantBinding) :
    ((∀ stored, (s.insert o b).1 ≠ .inserted stored) ∧ (s.insert o b).2 = s) ∨
      s.organizations.contains o.id = false ∧
        (∀ p, o.parentId = some p → s.organizations.contains p = true) ∧
        s.conflict? o.id b = none ∧ s.insert o b = (.inserted o.asFirst, s.added o.asFirst b) := by
  unfold insert
  split
  · exact .inl ⟨by simp, rfl⟩
  · next hnew =>
    split
    · exact .inl ⟨by simp, rfl⟩
    · next hparent =>
      cases hconflict : s.conflict? o.id b with
      | some conflict => exact .inl ⟨by simp, rfl⟩
      | none =>
        -- past all three guards
        refine .inr ⟨by simpa using hnew, ?_, rfl, rfl⟩
        exact hasParentOf_iff.1 (by simpa using hparent)

/-- A move that is not refused goes to the top, or to a record that is not below the moved one. -/
theorem moveOutcome_eq_none {s : Store} {id : String} {parent : Option String} :
    s.moveOutcome id parent = .ok none ↔ ∀ p, parent = some p →
      s.organizations.contains p = true ∧ s.isOnChain p id = .ok false := by
  cases parent with
  | none => simp [moveOutcome]
  | some p =>
    simp only [moveOutcome, Option.some_inj, forall_eq']
    cases hp : s.organizations.contains p
    · simp
    · rcases hchain : s.isOnChain p id with e | _ | _ <;> simp

/-- A move is refused for two reasons only. -/
theorem moveOutcome_eq_some {s : Store} {id : String} {parent : Option String}
    {refused : UpdateOutcome} (h : s.moveOutcome id parent = .ok (some refused)) :
    refused = .parentMissing ∨ refused = .cycleDetected := by
  cases parent with
  | none => simp [moveOutcome] at h
  | some p =>
    simp only [moveOutcome] at h
    split at h
    · exact .inl (by simpa using h.symm)
    · rcases hchain : s.isOnChain p id with e | _ | _ <;> simp [hchain] at h
      exact .inr h.symm

/-- A new record whose parent is there, with a binding that conflicts with nothing, is accepted. -/
theorem insert_eq {s : Store} {o : Organization} {b : TenantBinding}
    (hnew : s.organizations.contains o.id = false)
    (hparent : ∀ p, o.parentId = some p → s.organizations.contains p = true)
    (hfree : s.conflict? o.id b = none) :
    s.insert o b = (.inserted o.asFirst, s.added o.asFirst b) := by
  simp only [insert, hnew, hasParentOf_iff.2 hparent, hfree]
  rfl

theorem update_cases (s : Store) (o : Organization) (expected : UInt64) :
    ((∀ stored, (s.update o expected).1 ≠ .ok (.updated stored)) ∧ (s.update o expected).2 = s) ∨
      ∃ existing, s.organizations.get? o.id = some existing ∧ existing.version = expected ∧
        (existing.parentId = o.parentId ∧
            s.update o expected =
              (.ok (.updated (o.asNext existing)), s.replaced (o.asNext existing)) ∨
          existing.parentId ≠ o.parentId ∧ s.moveOutcome existing.id o.parentId = .ok none ∧
            s.update o expected =
              (.ok (.updated (o.asNext existing)), s.moved existing (o.asNext existing))) := by
  unfold update
  cases hget : s.organizations.get? o.id with
  | none => exact .inl ⟨by simp, rfl⟩
  | some existing =>
    by_cases hversion : existing.version = expected
    · subst hversion
      simp only [ne_eq, not_true_eq_false, if_false]
      by_cases hparent : existing.parentId = o.parentId
      · rw [if_pos hparent]
        exact .inr ⟨existing, rfl, rfl, .inl ⟨hparent, rfl⟩⟩
      · rw [if_neg hparent]
        rcases hmove : s.moveOutcome existing.id o.parentId with e | _ | refused
        · exact .inl ⟨by simp, rfl⟩
        · exact .inr ⟨existing, rfl, rfl, .inr ⟨hparent, hmove, rfl⟩⟩
        · -- a refused move is answered with the refusal, which is no success
          refine .inl ⟨fun stored h => ?_, rfl⟩
          rcases moveOutcome_eq_some hmove with rfl | rfl <;> simp at h
    · simp only [ne_eq, hversion, not_false_eq_true, if_true]
      exact .inl ⟨by simp, trivial⟩

/-- Where the record is there, and no move is refused, an update over its version is accepted. -/
theorem update_eq {s : Store} {o existing : Organization}
    (hget : s.organizations.get? o.id = some existing)
    (hmove : s.moveOutcome existing.id o.parentId = .ok none) :
    s.update o existing.version =
      (.ok (.updated (o.asNext existing)), s.rewritten existing (o.asNext existing)) := by
  rw [rewritten, o.asNext_parentId]
  simp only [update, hget, hmove, ne_eq, not_true_eq_false, if_false]
  by_cases hparent : existing.parentId = o.parentId
  · rw [if_pos hparent, if_pos hparent]
    rfl
  · rw [if_neg hparent, if_neg hparent]
    rfl

/-- If it names another parent, the record is moved. -/
theorem update_eq_moved {s : Store} {o existing : Organization}
    (hget : s.organizations.get? o.id = some existing)
    (hmove : s.moveOutcome existing.id o.parentId = .ok none)
    (hparent : existing.parentId ≠ o.parentId) : s.update o existing.version =
      (.ok (.updated (o.asNext existing)), s.moved existing (o.asNext existing)) := by
  have hleaves : ¬ existing.parentId = (o.asNext existing).parentId := hparent
  rw [update_eq hget hmove, rewritten, if_neg hleaves]

/-- Where the record is there, with its binding and without children, its deletion is accepted. -/
theorem delete_eq {s : Store} {existing : Organization} {b : TenantBinding}
    (hget : s.organizations.get? existing.id = some existing)
    (hleaf : (s.childSet existing.id).size = 0) (hb : s.bindings.get? existing.id = some b) :
    s.delete existing.id = (.deleted existing, s.removed existing b) := by
  simp [delete, hget, hleaf, hb, removed]

theorem delete_cases (s : Store) (id : String) :
    ((∀ gone, (s.delete id).1 ≠ .deleted gone) ∧ (s.delete id).2 = s) ∨
      ∃ existing, s.organizations.get? id = some existing ∧ (s.childSet id).size = 0 ∧
        (s.delete id).1 = .deleted existing ∧
        ∀ b, existing.id = id → s.bindings.get? id = some b →
          (s.delete id).2 = s.removed existing b := by
  unfold delete
  cases hget : s.organizations.get? id with
  | none => exact .inl ⟨by simp, rfl⟩
  | some existing =>
    by_cases hcount : 0 < (s.childSet id).size
    · simp only [hcount, if_true]
      exact .inl ⟨by simp, trivial⟩
    · simp only [hcount, if_false]
      refine .inr ⟨existing, rfl, by omega, rfl, fun b hown hb => ?_⟩
      subst hown
      simp [hb, removed]

/-- A change sets one record, without projections, or erases one, or all, or it leaves the records
alone. -/
theorem organizations_change (s : Store) (c : StoreChange) :
    (s.change c).organizations = s.organizations ∨
      (∃ id o, o.bare = o ∧ (s.change c).organizations = s.organizations.insert id o) ∨
      (∃ id, (s.change c).organizations = s.organizations.erase id) ∨
      (s.change c).organizations = .empty := by
  cases c with
  | insert o b =>
    rcases insert_cases s o b with ⟨-, hsame⟩ | ⟨-, -, -, haccepted⟩
    · exact .inl (congrArg organizations hsame)
    · exact .inr (.inl ⟨o.id, o.asFirst, rfl, congrArg (organizations ∘ Prod.snd) haccepted⟩)
  | update o expected =>
    rcases update_cases s o expected with
      ⟨-, hsame⟩ | ⟨existing, -, -, ⟨-, haccepted⟩ | ⟨-, -, haccepted⟩⟩
    · exact .inl (congrArg organizations hsame)
    all_goals
      have hset := congrArg (organizations ∘ Prod.snd) haccepted
      exact .inr (.inl ⟨o.id, o.asNext existing, rfl, hset⟩)
  | delete id =>
    show (s.delete id).2.organizations = _ ∨ (∃ _ _, _ ∧ (s.delete id).2.organizations = _) ∨
      (∃ _, (s.delete id).2.organizations = _) ∨ (s.delete id).2.organizations = _
    unfold delete
    split
    · exact .inl rfl
    · dsimp only
      split
      · exact .inl rfl
      · exact .inr (.inr (.inl ⟨id, rfl⟩))
  | clear => exact .inr (.inr (.inr rfl))

/-- A change brings in one record of a kind at most. -/
theorem countP_change (s : Store) (c : StoreChange) (p : Organization → Bool) :
    (s.change c).organizations.values.countP p ≤ s.organizations.values.countP p + 1 := by
  rcases s.organizations_change c with hsame | ⟨id, o, -, hset⟩ | ⟨id, herased⟩ | hcleared
  · rw [hsame]
    exact Nat.le_succ _
  · rw [hset]
    exact Table.countP_values_insert ..
  · rw [herased]
    exact Nat.le_succ_of_le (Table.countP_values_erase ..)
  · rw [hcleared]
    exact Nat.zero_le _

/-! ## The index of children -/

/-- The children of an id in an index. -/
def childrenIn (index : Table String ChildSet) (p : String) : ChildSet :=
  (index.get? p).getD .empty

/-- No entry of an index stands for an id without children. -/
def Tight (index : Table String ChildSet) : Prop :=
  ∀ p set, index.get? p = some set → set.isEmpty = false

theorem get?_of_tight {index : Table String ChildSet} (h : Tight index) (p : String) :
    index.get? p = if (childrenIn index p).isEmpty then none else some (childrenIn index p) := by
  unfold childrenIn
  cases hset : index.get? p with
  | none => rfl
  | some set =>
    have hfull : set.isEmpty = false := h p set hset
    rw [Option.getD_some, hfull]
    rfl

/-- An index is known by the children that it has for every id. -/
theorem index_ext {index index' : Table String ChildSet} (h : Tight index) (h' : Tight index')
    (hsame : ∀ p key, (childrenIn index p).contains key = true ↔
      (childrenIn index' p).contains key = true) : index = index' := by
  refine Table.ext fun p => ?_
  have hset : childrenIn index p = childrenIn index' p := Table.ext_contains (hsame p)
  rw [get?_of_tight h, get?_of_tight h', hset]

theorem contains_linked {index : Table String ChildSet} {o : Organization} {p : String}
    {key : ChildKey} : (childrenIn (linked index o) p).contains key = true ↔
      o.parentId = some p ∧ key = .of o ∨ (childrenIn index p).contains key = true := by
  unfold linked
  cases hparent : o.parentId with
  | none => simp
  | some parent =>
    by_cases hp : p = parent
    · subst hp
      simp [attach, childrenIn, Table.get?_insert_self, Table.contains_insert]
    · have hne : ¬ parent = p := fun h => hp h.symm
      simp [attach, childrenIn, Table.get?_insert_of_ne hp, hne]

theorem contains_detach {index : Table String ChildSet} {o : Organization} {parent p : String}
    {key : ChildKey} : (childrenIn (detach index parent o) p).contains key = true ↔
      ¬ (parent = p ∧ key = .of o) ∧ (childrenIn index p).contains key = true := by
  unfold detach
  by_cases hp : p = parent
  · subst hp
    cases hset : index.get? p with
    | none => simp [childrenIn, hset]
    | some set =>
      have hrest : (childrenIn index p).contains key = set.contains key := by
        simp [childrenIn, hset]
      simp only [hrest, true_and]
      split
      · next hempty =>
        -- the last child has gone, and the set with it
        have hnone := Table.isEmpty_iff.1 hempty key
        rw [← Bool.not_eq_true, Table.contains_erase] at hnone
        simpa [childrenIn, Table.get?_erase] using hnone
      · simp [childrenIn, Table.get?_insert_self, Table.contains_erase]
  · have hne : ¬ parent = p := fun h => hp h.symm
    cases index.get? parent with
    | none => simp [hne]
    | some set =>
      dsimp only
      split <;> simp [childrenIn, Table.get?_insert_of_ne hp, Table.get?_erase, hp, hne]

theorem contains_unlinked {index : Table String ChildSet} {o : Organization} {p : String}
    {key : ChildKey} : (childrenIn (unlinked index o) p).contains key = true ↔
      ¬ (o.parentId = some p ∧ key = .of o) ∧ (childrenIn index p).contains key = true := by
  unfold unlinked
  cases hparent : o.parentId with
  | none => simp
  | some parent => simp [contains_detach]

theorem tight_attach {index : Table String ChildSet} (h : Tight index) (parent : String)
    (o : Organization) : Tight (attach index parent o) := by
  intro p set hset
  unfold attach at hset
  rw [Table.get?_insert] at hset
  split at hset
  · -- the set has got a child, so it is not empty
    have hmem : set.contains (.of o) = true := by
      rw [← Option.some.inj hset, Table.contains_insert]
      exact .inl rfl
    rw [Bool.eq_false_iff, ne_eq, Table.isEmpty_iff]
    intro hempty
    rw [hempty] at hmem
    simp at hmem
  · exact h p set hset

theorem tight_detach {index : Table String ChildSet} (h : Tight index) (parent : String)
    (o : Organization) : Tight (detach index parent o) := by
  unfold detach
  cases index.get? parent with
  | none => exact h
  | some rest =>
    dsimp only
    split
    · intro p set hset
      rw [Table.get?_erase] at hset
      split at hset
      · simp at hset
      · exact h p set hset
    · next hfull =>
      -- a set that is kept has a child left
      intro p set hset
      rw [Table.get?_insert] at hset
      split at hset
      · rw [← Option.some.inj hset]
        simpa using hfull
      · exact h p set hset

theorem tight_linked {index : Table String ChildSet} (h : Tight index) (o : Organization) :
    Tight (linked index o) := by
  unfold linked
  split
  · exact tight_attach h _ o
  · exact h

theorem tight_unlinked {index : Table String ChildSet} (h : Tight index) (o : Organization) :
    Tight (unlinked index o) := by
  unfold unlinked
  split
  · exact tight_detach h _ o
  · exact h

end Store

end OrgForest
