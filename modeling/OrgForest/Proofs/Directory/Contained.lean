import OrgForest.Proofs.Directory.History

/-!
# What a change can reach

A change that is refused changes nothing at all: neither a check, nor the provisioner, nor the store
can turn it down when something has been written already. And a change that is made stays with the
record that it is about. The records and the bindings of all others are as before, and so is the
whole structure if the record keeps its parent.

* `Directory.Contained` — changes that stay within these bounds;
* `Directory.changes_contained` — every change of a directory does.
-/

namespace OrgForest

/-- The change leaves a record that is there under its parent. -/
def Mutation.KeepsParent (s : Store) : Mutation → Prop
  | .add .. => False
  | .patch .. => True
  | .update _ id _ o => s.parentId? id = some o.parentId
  | .delete _ => False

namespace Directory

variable {setting : Setting} {s : Surroundings} {d : Directory} {id : String} {keeps : Prop}

/-! ## Bounds of a change -/

/-- A change of the record of an id stays within its bounds. Refused, it leaves the store as it is.
Made, it leaves all but the record of the id and its binding, and if it `keeps` the parent, then all
but the record. -/
structure Contained {α : Type} (id : String) (keeps : Prop) (s : Store)
    (outcome : Except OrganizationError α) (s' : Store) : Prop where
  refused : ∀ e, outcome = .error e → s' = s
  records : ∀ a, outcome = .ok a → ∀ x, x ≠ id →
    s'.organizations.get? x = s.organizations.get? x
  bindings : ∀ a, outcome = .ok a → ∀ x, x ≠ id → s'.bindings.get? x = s.bindings.get? x
  frame : ∀ a, outcome = .ok a → keeps → s'.children = s.children ∧ s'.bindings = s.bindings ∧
    s'.domains = s.domains ∧ s'.tenantIds = s.tenantIds ∧ s'.structureVersion = s.structureVersion

namespace Contained

variable {α β : Type} {store store' : Store} {outcome : Except OrganizationError α}

theorem idle : Contained id keeps store outcome store where
  refused _ _ := rfl
  records _ _ _ _ := rfl
  bindings _ _ _ _ := rfl
  frame _ _ _ := ⟨rfl, rfl, rfl, rfl, rfl⟩

theorem made {a : α}
    (hrecords : ∀ x, x ≠ id → store'.organizations.get? x = store.organizations.get? x)
    (hbindings : ∀ x, x ≠ id → store'.bindings.get? x = store.bindings.get? x)
    (hframe : keeps → store'.children = store.children ∧ store'.bindings = store.bindings ∧
      store'.domains = store.domains ∧ store'.tenantIds = store.tenantIds ∧
        store'.structureVersion = store.structureVersion) :
    Contained id keeps store (.ok a) store' where
  refused _ h := by cases h
  records _ _ := hrecords
  bindings _ _ := hbindings
  frame _ _ := hframe

/-- What an answer carries does not count. -/
theorem map {f : α → β} (h : Contained id keeps store outcome store') :
    Contained id keeps store (outcome.map f) store' := by
  cases outcome with
  | error e =>
    exact ⟨fun _ _ => h.refused e rfl, fun _ hok => (by cases hok), fun _ hok => (by cases hok),
      fun _ hok => (by cases hok)⟩
  | ok a => exact made (h.records a rfl) (h.bindings a rfl) (h.frame a rfl)

/-- Whom nobody disturbs runs in still surroundings. -/
theorem undisturbed {a : Action α} {s : Surroundings}
    (h : Contained id keeps store (a.run setting.still s.next).1
      (a.run setting.still s.next).2.store) :
    Contained id keeps store (a.run setting.undisturbed.environment s.next).1
      (a.run setting.undisturbed.environment s.next).2.store := by
  rw [(setting.run_undisturbed a s).1, (setting.run_undisturbed a s).2]
  exact h

end Contained

/-! ## The changes -/

theorem Revised.contained {Makes : Organization → Organization → Prop}
    {run : Except OrganizationError Organization × Surroundings} (h : d.Revised s id Makes run)
    (hs : s.store.Linked)
    (hkeeps : keeps → ∀ current candidate, s.store.organizations.get? id = some current →
      Makes current candidate → current.parentId = candidate.parentId) :
    Contained id keeps s.store run.1 run.2.store := by
  cases h with
  | refused _ hrun =>
    rw [hrun]
    exact .idle
  | left _ hrun =>
    rw [hrun]
    exact .idle
  | @written current candidate held hedit hmakes hrun =>
    obtain rfl : current.id = id := hs.ownId id current held
    rw [hrun]
    -- one record is written; only a move touches the index of children as well
    refine .made (fun x hx => ?_) (fun x _ => ?_) fun hk => ?_
    · rw [Store.rewritten_organizations, candidate.asNext_id, hedit.same]
      exact Table.get?_insert_of_ne hx
    · rw [Store.rewritten_bindings]
    · have hparent := hkeeps hk current candidate held hmakes
      dsimp only
      rw [Store.rewritten_of_kept (o := candidate.asNext current) hparent]
      exact ⟨rfl, rfl, rfl, rfl, rfl⟩

theorem patch_contained (hs : s.store.Linked) (now : Timestamp) (id : String)
    (ops : List Patch.Operation) :
    Contained id keeps s.store ((d.patch now id ops).run setting.still s).1
      ((d.patch now id ops).run setting.still s).2.store := by
  refine (patch_revised hs now id ops).contained hs fun _ current candidate _ hmakes => ?_
  obtain ⟨patched, name, happlied, -, rfl⟩ := hmakes
  exact (Patch.apply_spared happlied).parentId.symm

theorem update_contained (hs : s.store.Linked) (now : Timestamp) (id currentName : String)
    (o : Organization) :
    Contained id (s.store.parentId? id = some o.parentId) s.store
      ((d.update now id currentName o).run setting.still s).1
      ((d.update now id currentName o).run setting.still s).2.store := by
  refine (update_revised hs now id currentName o).contained hs
    fun hparent current candidate hget hmakes => ?_
  obtain ⟨name, -, rfl⟩ := hmakes
  obtain ⟨existing, hexisting, hkept⟩ := Store.parentId?_eq_some.1 hparent
  obtain rfl : current = existing := Option.some.inj (hget.symm.trans hexisting)
  exact hkept

theorem add_contained (hs : s.store.Linked) (now : Timestamp) (fresh : String) (o : Organization) :
    Contained fresh False s.store ((d.add now fresh o).run setting.still s).1
      ((d.add now fresh o).run setting.still s).2.store := by
  have hadded : d.Added setting s (draft now fresh o) ((d.add now fresh o).run setting.still s) :=
    add_added hs now fresh o
  cases hadded with
  | refused _ hrun =>
    rw [hrun]
    exact .idle
  | unprovided _ hrun =>
    rw [hrun]
    exact .idle
  | @bound binding _ _ _ hrun =>
    rw [hrun]
    dsimp only
    rcases s.store.insert_cases (draft now fresh o) binding with ⟨-, hkept⟩ | ⟨-, -, -, hinsert⟩
    · -- what the store turns down it leaves out altogether
      rw [hkept]
      exact .idle
    · rw [hinsert]
      exact .made (fun x hx => Table.get?_insert_of_ne hx)
        (fun x hx => Table.get?_insert_of_ne hx) False.elim

theorem delete_contained (hs : s.store.Consistent) (id : String) :
    Contained id False s.store ((delete id).run setting.still s).1
      ((delete id).run setting.still s).2.store := by
  have hdeleted : Deleted s id ((delete id).run setting.still s) := delete_deleted hs id
  cases hdeleted with
  | refused _ hrun =>
    rw [hrun]
    exact .idle
  | removed hid _ _ hrun =>
    subst hid
    rw [hrun]
    -- the record goes, and its binding with it
    refine .made (fun x hx => ?_) (fun x hx => ?_) False.elim
    · rw [Store.removed, Table.get?_erase, if_neg hx]
    · rw [Store.removed, Table.get?_erase, if_neg hx]

/-- Nobody comes between, so what is left is what still surroundings leave. -/
theorem serve_contained {s : Surroundings} (hs : s.store.Consistent) (r : Request) :
    Contained r.mutation.target (r.mutation.KeepsParent s.store) s.store (d.answer s r)
      (d.serve s r).store := by
  obtain ⟨mutation, setting⟩ := r
  have hnext : s.next.store.Consistent := hs
  cases mutation with
  | add now fresh o =>
    dsimp only [answer, serve]
    exact (add_contained hnext.toLinked now fresh o).undisturbed.map
  | patch now id ops =>
    dsimp only [answer, serve]
    exact (patch_contained hnext.toLinked now id ops).undisturbed.map
  | update now id currentName o =>
    dsimp only [answer, serve]
    exact (update_contained hnext.toLinked now id currentName o).undisturbed.map
  | delete id =>
    dsimp only [answer, serve]
    exact (delete_contained hnext id).undisturbed

/-- **A change is refused without a trace, or it stays with its record.** Whatever has been asked of
a directory before and whatever is asked of it now: if the change is refused, by whichever check, by
the provisioner or by the store, all tables of the store are as they were. If it is made, the record
and the binding of every other id are as they were; and a patch, or an update that keeps the parent,
leaves the index of children, all bindings with both indexes of them, and the structure version. -/
theorem changes_contained (d : Directory) (first : Int64) (requests : List Request) (r : Request) :
    let s := d.after first requests
    Contained r.mutation.target (r.mutation.KeepsParent s.store) s.store (d.answer s r)
      (d.serve s r).store :=
  serve_contained (after_consistent first requests) r

/-- The second addition comes to the store with a tenant of its own, and with an id in use. -/
def twice (name : String) : Request := Mutation.plain (.add .epoch "a" (.new .epoch name))

theorem changes_contained_twice :
    (standard.answer (standard.after 1 [twice "First"]) (twice "Second")).isOk = false ∧
      (standard.serve (standard.after 1 [twice "First"]) (twice "Second")).nextTenantId = 3 ∧
      (standard.serve (standard.after 1 [twice "First"]) (twice "Second")).store =
        (standard.after 1 [twice "First"]).store := by
  have hrefused :
      (standard.answer (standard.after 1 [twice "First"]) (twice "Second")).isOk = false := by
    decide +kernel
  refine ⟨hrefused, by decide +kernel, ?_⟩
  cases hanswer : standard.answer (standard.after 1 [twice "First"]) (twice "Second") with
  | error e =>
    exact (changes_contained standard 1 [twice "First"] (twice "Second")).refused e hanswer
  | ok _ =>
    rw [hanswer] at hrefused
    cases hrefused

end Directory

end OrgForest
