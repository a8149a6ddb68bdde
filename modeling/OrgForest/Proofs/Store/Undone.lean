import OrgForest.Proofs.Except
import OrgForest.Proofs.Store.Consistent

/-!
# Changes that are taken back

An insertion touches all tables of a store, and so does the deletion that takes it back. A move
takes a child from one parent to another, and perhaps a set of children away or a new one in.
Nothing of this is left behind once it has been taken back: of a consistent store only the records
and the bindings have to be followed, since all other tables are indexes of these.

Callers hand over creation times, versions and projections of their own, which a store does not use,
so a record goes back to its old place whatever they are.

* `Store.Bare`, `Store.bare_after` — projections are never stored;
* `Store.Consistent.delete_added` — an insertion taken back;
* `Store.Consistent.update_moved` — a move taken back;
* `Store.changes_undone` — both, whatever has been done before.
-/

namespace OrgForest

/-- The record says the same as another one in all that a store takes from its callers. -/
def Organization.Restates (o r : Organization) : Prop :=
  { o.bare with created := r.created, version := r.version } = r.bare

instance (o r : Organization) : Decidable (o.Restates r) :=
  inferInstanceAs (Decidable ({ o.bare with created := r.created, version := r.version } = r.bare))

namespace Store

variable {s : Store}

/-! ## Projections -/

/-- No record is stored with projections. -/
def Bare (s : Store) : Prop := ∀ id o, s.organizations.get? id = some o → o.bare = o

theorem Bare.change (h : s.Bare) (c : StoreChange) : (s.change c).Bare := by
  unfold Bare
  -- the records stay, or one is written or erased, or all are
  rcases s.organizations_change c with hsame | ⟨id, o, hbare, hset⟩ | ⟨id, herased⟩ | hcleared
  · rw [hsame]
    exact h
  · intro x r hr
    rw [hset, Table.get?_insert] at hr
    split at hr
    · rwa [← Option.some.inj hr]
    · exact h x r hr
  · intro x r hr
    rw [herased, Table.get?_erase] at hr
    split at hr
    · cases hr
    · exact h x r hr
  · intro x r hr
    rw [hcleared] at hr
    cases hr

theorem bare_after (changes : List StoreChange) : (after changes).Bare := by
  have hempty : Store.empty.Bare := fun _ _ h => nomatch h
  unfold after
  -- on the changes made, from any store without projections
  generalize Store.empty = s at hempty
  induction changes generalizing s with
  | nil => exact hempty
  | cons c changes ih => exact ih (s.change c) (hempty.change c)

/-! ## Insertions -/

namespace Consistent

/-- The count of changes says nothing about the tables. -/
theorem counted (h : s.Consistent) (n : Nat) : { s with structureVersion := n }.Consistent :=
  { h with }

/-- A new record has no children: nobody has named it as a parent before. -/
theorem size_childSet_added (h : s.Consistent) {o : Organization} (b : TenantBinding)
    (hnew : s.organizations.contains o.id = false)
    (hparent : ∀ p, o.parentId = some p → s.organizations.contains p = true) :
    ((s.added o b).childSet o.id).size = 0 := by
  have hadded : (s.added o b).Linked := h.toLinked.added b hnew hparent
  rw [Table.size_eq_zero]
  intro key
  rw [← Bool.not_eq_true, hadded.indexed]
  rintro ⟨child, hchild, hup, -⟩
  -- whoever names the new id as its parent would have found it there
  have hknown : s.organizations.contains o.id = true := by
    rcases (holds_of_written rfl).1 (hadded.get?_own hchild) with rfl | ⟨-, hheld⟩
    · exact hparent child.id hup
    · obtain ⟨chain, hchain, -⟩ := h.lineage_of_parent hheld hup
      exact contains_of_mem hchain hchain.mem_self
  rw [hnew] at hknown
  cases hknown

/-- Deleting what has just been put in leaves the tables as they were before. -/
theorem delete_added (h : s.Consistent) {o : Organization} {b : TenantBinding}
    (hnew : s.organizations.contains o.id = false)
    (hparent : ∀ p, o.parentId = some p → s.organizations.contains p = true)
    (hfree : s.conflict? o.id b = none) : (s.added o b).delete o.id =
      (.deleted o, { s with structureVersion := s.structureVersion + 2 }) := by
  have hadded : (s.added o b).Consistent :=
    (h.toLinked.added b hnew hparent).consistent (h.toBound.added hfree)
  have hdelete : (s.added o b).delete o.id = (.deleted o, (s.added o b).removed o b) :=
    delete_eq Table.get?_insert_self (h.size_childSet_added b hnew hparent)
      Table.get?_insert_self
  have hunbound : s.bindings.contains o.id = false := (conflict?_eq_none.1 hfree).2.1
  have hremoved : ((s.added o b).removed o b).Consistent := by
    have hafter := hadded.delete o.id
    rwa [hdelete] at hafter
  -- the record and its binding have come and gone, and the rest follows them
  rw [hdelete, hremoved.ext (h.counted (s.structureVersion + 2)) (Table.erase_insert hnew)
    (Table.erase_insert hunbound) rfl]

/-! ## Moves -/

section Moved

variable (h : s.Consistent) {o existing back : Organization}
  (hget : s.organizations.get? o.id = some existing)

include h hget

/-- The old parent is still there, and it has not come below the record that has left it. -/
theorem moveOutcome_back {p : Option String} (hp : existing.parentId = p) :
    (s.moved existing (o.asNext existing)).moveOutcome o.id p = .ok none := by
  have hid : existing.id = o.id := h.ownId o.id existing hget
  refine moveOutcome_eq_none.2 fun q hq => ?_
  obtain ⟨chain, hchain, hnot⟩ := h.lineage_of_parent (h.get?_own hget) (hp.trans hq)
  rw [hid] at hnot
  -- the lineage of the old parent is the same as before
  have hkept : Lineage (s.moved existing (o.asNext existing)).parentId? q chain :=
    lineage_of_apart (o := o.asNext existing) rfl hchain hnot
  refine ⟨contains_of_mem hkept hkept.mem_self, ?_⟩
  rw [isOnChain_eq hkept, decide_eq_false hnot]

/-- If a record that was moved has come back to its place, then nothing but the record can be other
than before. -/
theorem eq_of_moved_back {stored restored : Organization}
    (hmoved : ((s.moved existing stored).moved stored restored).Consistent)
    (hid : stored.id = o.id) (hback : restored.id = o.id)
    (hcreated : restored.created = existing.created)
    (hparent : existing.parentId = restored.parentId) :
    (s.moved existing stored).moved stored restored =
      { s with
        organizations := s.organizations.insert o.id restored
        structureVersion := s.structureVersion + 2 } := by
  -- the store in which the record is written over in its place
  rw [← hback] at hget
  have hreplaced : (s.replaced restored).Consistent :=
    (h.toLinked.replaced hget hcreated hparent).consistent
      (h.toBound.of_insert hget rfl rfl rfl rfl)
  have hwritten : (s.organizations.insert stored.id stored).insert restored.id restored =
      s.organizations.insert restored.id restored := by
    rw [hid, hback]
    exact Table.insert_insert _
  rw [← hback]
  exact hmoved.ext (hreplaced.counted (s.structureVersion + 2)) hwritten rfl rfl

/-- Updating what has just been moved with what it said before leaves the tables as they were, but
for the two versions that the record has gained. -/
theorem update_moved (hmove : s.moveOutcome existing.id o.parentId = .ok none)
    (hparent : existing.parentId ≠ o.parentId) (hbare : existing.bare = existing)
    (hback : back.Restates existing) :
    (s.moved existing (o.asNext existing)).update back (o.asNext existing).version =
      (.ok (.updated { existing with version := existing.version + 2 }),
        { s with
          organizations := s.organizations.insert o.id
            { existing with version := existing.version + 2 }
          structureVersion := s.structureVersion + 2 }) := by
  have hid : existing.id = o.id := h.ownId o.id existing hget
  have hsame : { back.bare with created := existing.created, version := existing.version } =
      existing := hback.trans hbare
  have hbackId : back.id = o.id := (congrArg Organization.id hsame).trans hid
  have hbackParent : existing.parentId = back.parentId :=
    (congrArg Organization.parentId hsame).symm
  have hmoved : (s.moved existing (o.asNext existing)).Consistent := by
    have hupdated := h.update o existing.version
    rwa [update_eq_moved hget hmove hparent] at hupdated
  -- the second update is accepted as well, for the way back is free
  have hheld : (s.moved existing (o.asNext existing)).organizations.get? back.id =
      some (o.asNext existing) := by
    rw [hbackId]
    exact Table.get?_insert_self
  have hleaves : (o.asNext existing).parentId ≠ back.parentId := hbackParent ▸ Ne.symm hparent
  have haccepted := update_eq_moved hheld (h.moveOutcome_back hget hbackParent) hleaves
  have hafter : ((s.moved existing (o.asNext existing)).moved (o.asNext existing)
      (back.asNext (o.asNext existing))).Consistent := by
    have hupdated := hmoved.update back (o.asNext existing).version
    rwa [haccepted] at hupdated
  -- what it stores is the record as it was before, written over twice
  have hrestored : back.asNext (o.asNext existing) =
      { existing with version := existing.version + 2 } := by
    have hversion : existing.version + 1 + 1 = existing.version + 2 := UInt64.add_assoc ..
    calc back.asNext (o.asNext existing)
        = { { back.bare with created := existing.created, version := existing.version } with
            version := existing.version + 1 + 1 } := rfl
      _ = { existing with version := existing.version + 2 } := by rw [hsame, hversion]
  rw [haccepted, h.eq_of_moved_back hget hafter rfl hbackId rfl hbackParent, hrestored]

end Moved

end Consistent

/-- **Changes can be taken back.** Whatever has been done to a store: if an organization is
inserted, then its deletion leaves every table as it was before. If an update takes an organization
to another parent, then a further update with all that was said of it before leaves every table as
it was, but for the version of the record, which has grown by two. In both cases the structure
version has grown by two. -/
theorem changes_undone (changes : List StoreChange) :
    let s := after changes
    (∀ o b stored, (s.insert o b).1 = .inserted stored →
      (s.insert o b).2.delete o.id =
        (.deleted stored, { s with structureVersion := s.structureVersion + 2 })) ∧
    ∀ o expected existing stored back, s.organizations.get? o.id = some existing →
      existing.parentId ≠ o.parentId → (s.update o expected).1 = .ok (.updated stored) →
      back.Restates existing →
      (s.update o expected).2.update back stored.version =
        (.ok (.updated { existing with version := existing.version + 2 }),
          { s with
            organizations := s.organizations.insert o.id
              { existing with version := existing.version + 2 }
            structureVersion := s.structureVersion + 2 }) := by
  intro s
  have hs : s.Consistent := .after changes
  constructor
  · intro o b stored hyes
    rcases insert_cases s o b with ⟨hno, -⟩ | ⟨hnew, hup, hfree, haccepted⟩
    · exact absurd hyes (hno stored)
    · rw [haccepted] at hyes ⊢
      obtain rfl := InsertOutcome.inserted.inj hyes
      exact hs.delete_added (o := o.asFirst) hnew hup hfree
  · intro o expected existing stored back hget hparent hyes hback
    -- the record goes to another parent, so the update was accepted as a move
    rcases update_cases s o expected with
      ⟨hno, -⟩ | ⟨found, hfound, -, ⟨hsame, -⟩ | ⟨-, hmove, haccepted⟩⟩
    · exact absurd hyes (hno stored)
    · rw [hget, Option.some_inj] at hfound
      exact absurd (hfound ▸ hsame) hparent
    · obtain rfl : existing = found := Option.some.inj (hget.symm.trans hfound)
      rw [haccepted] at hyes ⊢
      obtain rfl := UpdateOutcome.updated.inj (Except.ok.inj hyes)
      exact hs.update_moved hget hmove hparent (bare_after changes o.id existing hget) hback

/-- A leaf, as it is stored as the only child of its parent. -/
def onlyLeaf : Organization :=
  { Organization.new .epoch "Leaf" with id := "leaf", parentId := some "left", version := 1 }

/-- A tree with two branches, of which one has a leaf. -/
def oneLeaf : List StoreChange :=
  let branch (id : String) : Organization :=
    { Organization.new .epoch id with id, parentId := some "root" }
  [.insert { Organization.new .epoch "Root" with id := "root" } ⟨"root", "root.example", 1⟩,
    .insert (branch "left") ⟨"left", "left.example", 2⟩,
    .insert (branch "right") ⟨"right", "right.example", 3⟩,
    .insert onlyLeaf ⟨"leaf", "leaf.example", 4⟩]

/-- A first child comes and goes, and the leaf goes to the other branch, under another name and with
a creation time of the caller's, and comes back. -/
theorem changes_undone_onlyLeaf :
    let s := after oneLeaf
    let child := { Organization.new .epoch "Child" with id := "child", parentId := some "leaf" }
    let b : TenantBinding := ⟨"child", "child.example", 5⟩
    let later : Timestamp := ⟨1, 0, by decide, by decide⟩
    let away := { onlyLeaf with name := "Twig", parentId := some "right", created := later }
    let back := { onlyLeaf with created := later, permissions := ["read"] }
    (∃ stored, (s.insert child b).1 = .inserted stored ∧
      (s.insert child b).2.delete child.id =
        (.deleted stored, { s with structureVersion := s.structureVersion + 2 })) ∧
    ∃ stored, s.organizations.get? away.id = some onlyLeaf ∧
      onlyLeaf.parentId ≠ away.parentId ∧ (s.update away 1).1 = .ok (.updated stored) ∧
      back.Restates onlyLeaf ∧
      (s.update away 1).2.update back stored.version =
        (.ok (.updated { onlyLeaf with version := 3 }),
          { s with
            organizations := s.organizations.insert "leaf" { onlyLeaf with version := 3 }
            structureVersion := s.structureVersion + 2 }) := by
  intro s child b later away back
  have hinserted : (s.insert child b).1 = .inserted child.asFirst := by decide +kernel
  have hheld : s.organizations.get? away.id = some onlyLeaf := by decide +kernel
  have hparent : onlyLeaf.parentId ≠ away.parentId := by decide
  have hupdated : (s.update away 1).1 = .ok (.updated (away.asNext onlyLeaf)) :=
    toOption_eq_some.1 (by decide +kernel)
  have hback : back.Restates onlyLeaf := by decide
  obtain ⟨hinsertion, hmove⟩ := changes_undone oneLeaf
  exact ⟨⟨_, hinserted, hinsertion child b _ hinserted⟩, _, hheld, hparent, hupdated, hback,
    hmove away 1 onlyLeaf _ back hheld hparent hupdated hback⟩

end Store

end OrgForest
