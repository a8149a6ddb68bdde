import OrgForest.Proofs.Directory.Outcome

/-!
# What a change can do to the records

A change of a directory, run where nobody disturbs it, leaves the records as they are, or adds one,
rewrites one, or erases one. Each of the three comes with all that has been checked before, so that
a property of the records is kept by every change if it is kept by these steps.

* `Directory.Step` — the steps;
* `Directory.add_step`, `Directory.patch_step`, `Directory.update_step`, `Directory.delete_step` —
  every change is one of them.
-/

namespace OrgForest.Directory

variable {setting : Setting} {s : Surroundings} {d : Directory}

/-- What a change does to the records. What it writes has no projections. -/
inductive Step (d : Directory) (s s' : Store) : Prop where
  | idle (h : s' = s)
  | added (o : Organization) (ho : d.Newcomer s o)
      (h : s'.organizations = s.organizations.insert o.id o) (hbare : o.bare = o)
  | edited (old new : Organization) (he : d.Edit s old new)
      (h : s'.organizations = s.organizations.insert new.id new) (hbare : new.bare = new)
  | erased (id : String) (hleaf : ∀ x, s.parentId? x ≠ some (some id))
      (h : s'.organizations = s.organizations.erase id)

theorem Revised.step {id : String} {Makes : Organization → Organization → Prop}
    {run : Except OrganizationError Organization × Surroundings} (h : d.Revised s id Makes run) :
    d.Step s.store run.2.store := by
  cases h with
  | refused _ hrun => exact .idle (by rw [hrun])
  | left _ hrun => exact .idle (by rw [hrun])
  | @written current candidate _ hedit _ hrun =>
    rw [hrun]
    have hproper (hold : d.Proper current) : d.Proper (candidate.asNext current) :=
      (hedit.proper hold).congr rfl (hedit.proper hold).keyed
    exact .edited current (candidate.asNext current) ⟨hedit.held, hedit.same, hproper,
      hedit.renamed, hedit.moved, hedit.settled.disabled, hedit.settled.activated⟩
      (s.store.rewritten_organizations ..) rfl

theorem add_step (hs : s.store.Linked) (now : Timestamp) (fresh : String) (o : Organization) :
    d.Step s.store ((d.add now fresh o).run setting.still s).2.store := by
  have hadded : d.Added setting s (draft now fresh o) ((d.add now fresh o).run setting.still s) :=
    add_added hs now fresh o
  generalize draft now fresh o = candidate at hadded
  cases hadded with
  | refused _ hrun => exact .idle (by rw [hrun])
  | unprovided _ hrun => exact .idle (by rw [hrun])
  | @bound binding _ hnew _ hrun =>
    -- the store finds out whether the id is new, and nothing else can go wrong for the records
    rw [hrun]
    rcases s.store.insert_cases candidate binding with ⟨-, hkept⟩ | ⟨hfresh, -, -, hinsert⟩
    · exact .idle hkept
    · have hcomes := hnew hfresh
      have hproper : d.Proper candidate.asFirst := hcomes.proper.congr rfl hcomes.proper.keyed
      rw [hinsert]
      exact .added candidate.asFirst ⟨hfresh, hproper, hcomes.atTop, hcomes.below⟩ rfl rfl

theorem patch_step (hs : s.store.Linked) (now : Timestamp) (id : String)
    (ops : List Patch.Operation) :
    d.Step s.store ((d.patch now id ops).run setting.still s).2.store :=
  (patch_revised hs now id ops).step

theorem update_step (hs : s.store.Linked) (now : Timestamp) (id currentName : String)
    (o : Organization) :
    d.Step s.store ((d.update now id currentName o).run setting.still s).2.store :=
  (update_revised hs now id currentName o).step

theorem delete_step (hs : s.store.Consistent) (id : String) :
    d.Step s.store ((delete id).run setting.still s).2.store := by
  have hdeleted : Deleted s id ((delete id).run setting.still s) := delete_deleted hs id
  cases hdeleted with
  | refused _ hrun => exact .idle (by rw [hrun])
  | @removed existing _ hid hleaf _ hrun =>
    subst hid
    rw [hrun]
    exact .erased existing.id hleaf rfl

end OrgForest.Directory
