import OrgForest.Proofs.Store.Binding
import OrgForest.Proofs.Store.Forest

/-!
# Consistent stores

The tables of a store say the same things several times. A store is consistent when they agree and
the records form a forest. Every change keeps a consistent store consistent, so the tables of a
store that was empty once agree for ever, and no call finds them contradicting each other.

* `Store.Consistent.ext` — what a consistent store is known by;
* `Store.Consistent.change` — every change keeps a store consistent;
* `Store.Consistent.perform_ok` — no call of a consistent store fails;
* `Store.consistent_after` — whatever is done to an empty store.
-/

namespace OrgForest.Store

variable {s : Store}

/-- All tables agree, and no set of children is kept for an id without record. -/
structure Consistent (s : Store) : Prop extends Linked s, Bound s where
  owned : ∀ p, s.children.contains p = true → s.organizations.contains p = true

/-- A consistent store is known by its records, its bindings and its version: all other tables are
indexes of the first two. -/
theorem Consistent.ext {t : Store} (h : s.Consistent) (ht : t.Consistent)
    (horganizations : s.organizations = t.organizations) (hbindings : s.bindings = t.bindings)
    (hversion : s.structureVersion = t.structureVersion) : s = t := by
  have hchildren : s.children = t.children := by
    refine index_ext h.tight ht.tight fun p key => (h.indexed p key).trans ?_
    rw [horganizations]
    exact (ht.indexed p key).symm
  have hdomains : s.domains = t.domains :=
    IsInverse.unique h.domains (hbindings ▸ ht.domains)
  have htenantIds : s.tenantIds = t.tenantIds :=
    IsInverse.unique h.tenantIds (hbindings ▸ ht.tenantIds)
  cases s
  cases t
  simp_all

theorem Linked.consistent (h : s.Linked) (hb : s.Bound) : s.Consistent :=
  { h, hb with owned := fun _ => h.owned }

/-! ## Changes -/

namespace Consistent

theorem empty : Store.empty.Consistent where
  ownId id o ho := by simp [Store.empty] at ho
  rooted id o ho := by simp [Store.empty] at ho
  indexed p key := by simp [Store.empty, childSet]
  tight p set hset := by simp [Store.empty] at hset
  bound id := by simp [Store.empty]
  ownBinding id b hb := by simp [Store.empty] at hb
  domains d id := by simp [Store.empty]
  tenantIds n id := by simp [Store.empty]
  owned p hp := by simp [Store.empty] at hp

/-- Only the tables count, not the number of changes they have seen. -/
theorem clear : s.clear.Consistent :=
  { empty with }

theorem insert (h : s.Consistent) (o : Organization) (b : TenantBinding) :
    (s.insert o b).2.Consistent := by
  rcases insert_cases s o b with ⟨-, hsame⟩ | ⟨hnew, hparent, hfree, haccepted⟩
  · rw [hsame]
    exact h
  · rw [haccepted]
    exact (h.toLinked.added (o := o.asFirst) b hnew hparent).consistent
      (h.toBound.added (o := o.asFirst) hfree)

theorem update (h : s.Consistent) (o : Organization) (expected : UInt64) :
    (s.update o expected).2.Consistent := by
  rcases update_cases s o expected with
    ⟨-, hsame⟩ | ⟨existing, hget, -, ⟨hparent, haccepted⟩ | ⟨-, hmove, haccepted⟩⟩
  · rw [hsame]
    exact h
  · rw [haccepted]
    exact (h.toLinked.replaced (o := o.asNext existing) hget rfl hparent).consistent
      (h.toBound.of_insert (o := o.asNext existing) hget rfl rfl rfl rfl)
  · -- the walk up from the new parent has not met the record, so it is not in that lineage
    rw [haccepted]
    refine (h.toLinked.moved (o := o.asNext existing) hget rfl fun p hp => ?_).consistent
      (h.toBound.of_insert (o := o.asNext existing) hget rfl rfl rfl rfl)
    obtain ⟨hknown, hfree⟩ := moveOutcome_eq_none.1 hmove p hp
    obtain ⟨chain, hchain⟩ := h.lineage hknown
    rw [isOnChain_eq hchain, h.ownId _ _ hget] at hfree
    exact ⟨chain, hchain, by simpa using hfree⟩

theorem delete (h : s.Consistent) (id : String) : (s.delete id).2.Consistent := by
  rcases delete_cases s id with ⟨-, hsame⟩ | ⟨existing, hget, hleaf, -, haccepted⟩
  · rw [hsame]
    exact h
  · -- every record has a binding, so the deletion takes one out
    have hown := h.ownId id existing hget
    obtain ⟨b, hb⟩ := Table.contains_iff.1 ((h.bound id).2 (Table.contains_of_get? hget))
    rw [haccepted b hown hb]
    rw [← hown] at hget hleaf hb
    exact (h.toLinked.removed b hget hleaf).consistent (h.toBound.removed hb)

/-- Every change keeps a consistent store consistent. -/
theorem change (h : s.Consistent) (c : StoreChange) : (s.change c).Consistent := by
  cases c with
  | insert o b => exact h.insert o b
  | update o expected => exact h.update o expected
  | delete id => exact h.delete id
  | clear => exact clear

end Consistent

/-! ## Calls -/

theorem recordsOf_eq {ids : List String} (h : ∀ id ∈ ids, s.organizations.contains id = true) :
    s.recordsOf ids = .ok (ids.filterMap s.organizations.get?) := by
  unfold recordsOf
  -- no look-up of the list misses, so none of them fails
  induction ids with
  | nil => rfl
  | cons id ids ih =>
    obtain ⟨o, ho⟩ := Table.contains_iff.1 (h id (by simp))
    rw [List.mapM_cons, ih fun x hx => h x (List.mem_cons_of_mem _ hx)]
    simp [ho]
    rfl

/-- A walk down meets what it starts with, and children. -/
theorem mem_spread {x : String} : ∀ {fuel : Nat} {met queue : List String},
    x ∈ s.spread fuel met queue → x ∈ queue ∨ ∃ p, x ∈ s.childIds p
  | 0, _, _, h => by simp [spread] at h
  | fuel + 1, met, [], h => by simp [spread] at h
  | fuel + 1, met, id :: queue, h => by
    rw [spread] at h
    -- what has been met is passed over, and anything else brings in its children
    split at h
    · rcases mem_spread h with hx | hx
      · exact .inl (List.mem_cons_of_mem _ hx)
      · exact .inr hx
    · rcases List.mem_cons.1 h with rfl | h
      · exact .inl (by simp)
      · rcases mem_spread h with hx | hx
        · rcases List.mem_append.1 hx with hx | hx
          · exact .inl (List.mem_cons_of_mem _ hx)
          · exact .inr ⟨id, hx⟩
        · exact .inr hx

namespace Consistent

theorem contains_of_mem_childIds (h : s.Consistent) {p id : String} (hid : id ∈ s.childIds p) :
    s.organizations.contains id = true :=
  contains_of_parentId? (h.mem_childIds.1 hid)

theorem contains_of_mem_idsBelow (h : s.Consistent) {p id : String} (hid : id ∈ s.idsBelow p) :
    s.organizations.contains id = true := by
  rcases mem_spread hid with hid | ⟨q, hid⟩
  · exact h.contains_of_mem_childIds hid
  · exact h.contains_of_mem_childIds hid

theorem inScope_ok (h : s.Consistent) (scope : Scope) : ∃ found, s.inScope scope = .ok found := by
  cases scope with
  | roots => exact ⟨_, rfl⟩
  | all => exact ⟨_, rfl⟩
  | childrenOf id => exact ⟨_, recordsOf_eq fun _ hid => h.contains_of_mem_childIds hid⟩
  | descendantsOf id => exact ⟨_, recordsOf_eq fun _ hid => h.contains_of_mem_idsBelow hid⟩

theorem scan_ok (h : s.Consistent) (r : Scan) : ∃ found, s.scan r = .ok found := by
  unfold scan
  split
  · exact ⟨_, rfl⟩
  · obtain ⟨found, hfound⟩ := h.inScope_ok r.scope
    rw [hfound]
    exact ⟨_, rfl⟩

/-- A walk up from the new parent never goes round, so a move is answered. -/
theorem moveOutcome_ok (h : s.Consistent) (id : String) (parent : Option String) :
    ∃ refused, s.moveOutcome id parent = .ok refused := by
  cases parent with
  | none => exact ⟨_, rfl⟩
  | some p =>
    cases hp : s.organizations.contains p with
    | false => exact ⟨some .parentMissing, by simp [moveOutcome, hp]⟩
    | true =>
      obtain ⟨chain, hchain⟩ := h.lineage hp
      simp only [moveOutcome, hp, isOnChain_eq hchain]
      cases decide (id ∈ chain) <;> exact ⟨_, rfl⟩

theorem update_ok (h : s.Consistent) (o : Organization) (expected : UInt64) :
    ∃ outcome, (s.update o expected).1 = .ok outcome := by
  unfold Store.update
  split
  · exact ⟨_, rfl⟩
  · next existing hget =>
    obtain ⟨refused, hmove⟩ := h.moveOutcome_ok existing.id o.parentId
    rw [hmove]
    -- every way an update can go gives an outcome, also where it is turned down
    split
    · exact ⟨_, rfl⟩
    · dsimp only
      split
      · exact ⟨_, rfl⟩
      · cases refused <;> exact ⟨_, rfl⟩

/-- No call of a consistent store fails; above all, none finds its tables contradictory. -/
theorem perform_ok (h : s.Consistent) (c : StoreCall) : ∃ answer, (s.perform c).1 = .ok answer := by
  cases c with
  | children id => exact ⟨_, recordsOf_eq fun _ hid => h.contains_of_mem_childIds hid⟩
  | update o expected => exact h.update_ok o expected
  | scan r => exact h.scan_ok r
  | _ => exact ⟨_, rfl⟩

end Consistent

/-! ## Histories -/

/-- The store after changes to an empty one, refused ones included. -/
def after (changes : List StoreChange) : Store := changes.foldl change empty

theorem Consistent.foldl (h : s.Consistent) (changes : List StoreChange) :
    (changes.foldl Store.change s).Consistent := by
  induction changes generalizing s with
  | nil => exact h
  | cons c changes ih => exact ih (h.change c)

theorem Consistent.after (changes : List StoreChange) : (Store.after changes).Consistent :=
  Consistent.empty.foldl changes

/-- **A store is always consistent.** Whatever has been done to a store that was empty once, its
tables agree, its records form a forest, and no call of it fails. -/
theorem consistent_after (changes : List StoreChange) :
    (after changes).Consistent ∧ ∀ c, ∃ answer, ((after changes).perform c).1 = .ok answer := by
  have hc : (after changes).Consistent := .after changes
  exact ⟨hc, hc.perform_ok⟩

end OrgForest.Store
