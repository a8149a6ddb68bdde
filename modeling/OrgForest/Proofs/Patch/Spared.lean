import OrgForest.Proofs.Patch.Edits
import OrgForest.Proofs.Text.Trim

/-!
# What patches leave alone

A patch may be about names, descriptions, statuses and attributes. What identifies an organization,
places it in the forest, dates it or counts its writes is the same after any patch as before it, and
so are its projections.

* `Patch.Operation.Outcome`, `Patch.Operation.apply_outcome` — what one operation can do;
* `Patch.Spared` — the fields that a patch cannot write;
* `Patch.apply_spared`, `Patch.apply_unprojected` — no patch writes them, or leaves projections.
-/

namespace OrgForest.Patch

variable {org org' : Organization}

/-! ## One operation -/

/-- What an operation that is done makes of an organization. -/
inductive Operation.Outcome (o : Operation) (org : Organization) : Organization → Prop where
  | name (name : String) (htrimmed : Text.trimmed name = name) (hblank : name ≠ "") :
      o.Outcome org { org with name }
  | description (description : Option String) : o.Outcome org { org with description }
  | status (status : Status) : o.Outcome org { org with status }
  | put (key value : String) (hpath : Target.ofPath o.path = .ok (.custom key)) :
      o.Outcome org (org.setAttribute key value)
  | drop (key : String) (hpath : Target.ofPath o.path = .ok (.custom key)) :
      o.Outcome org (org.removeAttribute key)

theorem Operation.apply_outcome {o : Operation} (h : o.apply org = .ok org') :
    o.Outcome org org' := by
  obtain ⟨e, hasks, -, rfl⟩ := apply_eq_ok.1 h
  cases hasks with
  | name _ _ _ hblank => exact .name _ (Text.trimmed_trimmed _) hblank
  | description => exact .description _
  | noDescription => exact .description none
  | status => exact .status _
  | put hpath => exact .put _ _ hpath
  | drop hpath => exact .drop _ hpath

/-- What every operation keeps, all of them together keep. -/
theorem applyAll_invariant {I : Organization → Prop}
    (hstep : ∀ {o : Operation} {org org' : Organization}, o.Outcome org org' → I org → I org')
    {ops : List Operation} (h : applyAll ops org = .ok org') (horg : I org) : I org' := by
  -- on the operations, each of which starts from what those before it have made
  induction ops generalizing org with
  | nil => exact Except.ok.inj h ▸ horg
  | cons o ops ih =>
    rw [applyAll] at h
    cases hfirst : o.apply org with
    | error e => simp [hfirst] at h
    | ok next =>
      rw [hfirst] at h
      exact ih h (hstep (Operation.apply_outcome hfirst) horg)

/-! ## What no operation writes -/

/-- Two organizations that agree in all that a patch cannot write. -/
structure Spared (before after : Organization) : Prop where
  id : after.id = before.id
  parentId : after.parentId = before.parentId
  created : after.created = before.created
  lastModified : after.lastModified = before.lastModified
  version : after.version = before.version

namespace Spared

variable {o p q : Organization}

theorem trans (h : Spared o p) (h' : Spared p q) : Spared o q where
  id := h'.id.trans h.id
  parentId := h'.parentId.trans h.parentId
  created := h'.created.trans h.created
  lastModified := h'.lastModified.trans h.lastModified
  version := h'.version.trans h.version

theorem bare (o : Organization) : Spared o o.bare := ⟨rfl, rfl, rfl, rfl, rfl⟩

end Spared

theorem Operation.Outcome.spared {o : Operation} (h : o.Outcome org org') : Spared org org' := by
  cases h
  all_goals exact ⟨rfl, rfl, rfl, rfl, rfl⟩

/-- A patch leaves alone what identifies, places and dates an organization. -/
theorem apply_spared {ops : List Operation} (h : apply ops org = .ok org') : Spared org org' :=
  applyAll_invariant (I := Spared org) (fun hdone hspared => hspared.trans hdone.spared) h
    (.bare org)

/-- A patch leaves no projections. -/
theorem apply_unprojected {ops : List Operation} (h : apply ops org = .ok org') :
    org'.children = [] ∧ org'.permissions = [] := by
  refine applyAll_invariant (I := fun o => o.children = [] ∧ o.permissions = []) ?_ h ⟨rfl, rfl⟩
  intro o before after hdone hnone
  cases hdone with
  | name | description | status | put | drop => exact hnone

end OrgForest.Patch
