import OrgForest.Proofs.Store.Outcome

/-!
# The bindings in a store

A binding is found by organization, by domain and by number. The last two are indexes of the first,
and every change keeps them so: a binding is accepted only if it is new in all three, and goes from
all three at once.

* `Store.IsInverse` — what an index says of the bindings;
* `Store.Bound` — one binding for every record, found in three ways.
-/

namespace OrgForest.Store

variable {s : Store}

/-- An index finds for a property exactly the organizations whose binding has it. As it finds one at
most, no two bindings share the property. -/
def IsInverse {κ : Type} [Ord κ] (index : Table κ String) (bindings : Table String TenantBinding)
    (property : TenantBinding → κ) : Prop :=
  ∀ k id, index.get? k = some id ↔ ∃ b, bindings.get? id = some b ∧ property b = k

/-- There is one binding for every record, found in three ways. -/
structure Bound (s : Store) : Prop where
  bound : ∀ id, s.bindings.contains id = true ↔ s.organizations.contains id = true
  ownBinding : ∀ id b, s.bindings.get? id = some b → b.organizationId = id
  domains : IsInverse s.domains s.bindings (·.tenantDomain)
  tenantIds : IsInverse s.tenantIds s.bindings (·.tenantId)

namespace IsInverse

variable {κ : Type} [Ord κ] [Std.TransOrd κ] [Std.LawfulEqOrd κ] [DecidableEq κ]
variable {index : Table κ String} {bindings : Table String TenantBinding}
variable {property : TenantBinding → κ}

theorem insert (h : IsInverse index bindings property) {id : String} {b : TenantBinding}
    (hunbound : bindings.get? id = none) (hfree : index.get? (property b) = none) :
    IsInverse (index.insert (property b) id) (bindings.insert id b) property := by
  intro k id'
  rw [Table.get?_insert, Table.get?_insert]
  by_cases hid : id' = id
  · -- the id had no binding, so the index found it nowhere
    subst hid
    have hnot : index.get? k ≠ some id' := fun hk => by
      obtain ⟨b', hb', -⟩ := (h k id').1 hk
      simp [hunbound] at hb'
    by_cases hk : k = property b
    · simp [hk]
    · simp [hk, hnot, Ne.symm hk]
  · by_cases hk : k = property b
    · -- nobody had the property before, so nobody else has it now
      have hnot := (not_congr (h k id')).1 (by simp [hk, hfree])
      rw [if_pos hk, if_neg hid]
      exact iff_of_false (by simpa using Ne.symm hid) hnot
    · rw [if_neg hk, if_neg hid]
      exact h k id'

theorem erase (h : IsInverse index bindings property) {id : String} {b : TenantBinding}
    (hb : bindings.get? id = some b) :
    IsInverse (index.erase (property b)) (bindings.erase id) property := by
  have hown : index.get? (property b) = some id := (h _ _).2 ⟨b, hb, rfl⟩
  intro k id'
  rw [Table.get?_erase, Table.get?_erase]
  by_cases hid : id' = id
  · subst hid
    by_cases hk : k = property b
    · simp [hk]
    · -- the binding that goes has one property only
      have hnot : index.get? k ≠ some id' := fun hfound => by
        obtain ⟨b', hb', hprop⟩ := (h k id').1 hfound
        rw [hb, Option.some_inj] at hb'
        exact hk (hb' ▸ hprop.symm)
      simp [hk, hnot]
  · by_cases hk : k = property b
    · -- the property was that of the binding that goes, so nobody else had it
      have hnot := (not_congr (h k id')).1 (by simpa [hk, hown] using Ne.symm hid)
      rw [if_pos hk, if_neg hid]
      exact iff_of_false (by simp) hnot
    · rw [if_neg hk, if_neg hid]
      exact h k id'

omit [DecidableEq κ] in
/-- Of one property of the bindings there is one index. -/
theorem unique {index' : Table κ String} (h : IsInverse index bindings property)
    (h' : IsInverse index' bindings property) : index = index' :=
  Table.ext fun k => Option.ext fun id => (h k id).trans (h' k id).symm

end IsInverse

namespace Bound

theorem added (h : s.Bound) {o : Organization} {b : TenantBinding}
    (hfree : s.conflict? o.id b = none) : (s.added o b).Bound := by
  obtain ⟨hown, hunbound, hdomain, hnumber⟩ := conflict?_eq_none.1 hfree
  have hnone := Table.contains_eq_false.1 hunbound
  refine ⟨fun id => ?_, fun id b' hb' => ?_, h.domains.insert hnone hdomain,
    h.tenantIds.insert hnone hnumber⟩
  · rw [Store.added, Table.contains_insert, Table.contains_insert, h.bound]
  · rw [Store.added, Table.get?_insert] at hb'
    split at hb'
    · next hid => rw [← Option.some.inj hb', hown, hid]
    · exact h.ownBinding id b' hb'

/-- Writing over a record touches no binding. -/
theorem of_insert (h : s.Bound) {s' : Store} {o existing : Organization}
    (hget : s.organizations.get? o.id = some existing)
    (horganizations : s'.organizations = s.organizations.insert o.id o)
    (hbindings : s'.bindings = s.bindings) (hdomains : s'.domains = s.domains)
    (htenantIds : s'.tenantIds = s.tenantIds) : s'.Bound := by
  refine ⟨fun id => ?_, ?_, ?_, ?_⟩
  · -- the record that is written over is one of those bound
    rw [hbindings, horganizations, Table.contains_insert, h.bound]
    refine ⟨.inr, ?_⟩
    rintro (rfl | hid)
    · exact Table.contains_of_get? hget
    · exact hid
  · rw [hbindings]
    exact h.ownBinding
  · rw [hbindings, hdomains]
    exact h.domains
  · rw [hbindings, htenantIds]
    exact h.tenantIds

theorem removed (h : s.Bound) {existing : Organization} {b : TenantBinding}
    (hb : s.bindings.get? existing.id = some b) : (s.removed existing b).Bound := by
  refine ⟨fun id => ?_, fun id b' hb' => ?_, h.domains.erase hb, h.tenantIds.erase hb⟩
  · rw [Store.removed, Table.contains_erase, Table.contains_erase, h.bound]
  · rw [Store.removed, Table.get?_erase] at hb'
    split at hb'
    · simp at hb'
    · exact h.ownBinding id b' hb'

end Bound

end OrgForest.Store
