import OrgForest.Proofs.Directory.History

/-!
# Activity

An organization takes part only if all that stand above it do. Four changes could break this: an
addition, a move, an activation, and a disabling. Each has a check of its own, and a single edit may
be several of them at once.

* `Store.ActiveUpward` — the parent of an active record is active;
* `Directory.activeUpward_step` — no step breaks it;
* `Directory.active_after` — it holds after every history, up to the roots.
-/

namespace OrgForest

/-- The parent of every active record is active. -/
def Store.ActiveUpward (s : Store) : Prop :=
  ∀ x p, s.Active x → s.parentId? x = some (some p) → s.Active p

/-- Then all that stand above an active record are active. -/
theorem Store.ActiveUpward.lineage {s : Store} (h : s.ActiveUpward) {id : String} {chain : Chain}
    (hchain : Lineage s.parentId? id chain) (hid : s.Active id) : ∀ x ∈ chain, s.Active x := by
  induction hchain with
  | root hup =>
    intro x hx
    exact List.mem_singleton.1 hx ▸ hid
  | child hup above ih =>
    intro x hx
    rcases List.mem_append.1 hx with hx | hx
    · exact ih (h _ _ hid hup) x hx
    · exact List.mem_singleton.1 hx ▸ hid

namespace Directory

variable {d : Directory} {s s' : Store}

theorem activeUpward_added {o : Organization} (ho : d.Newcomer s o) (h : s.ActiveUpward)
    (hwritten : s'.organizations = s.organizations.insert o.id o) : s'.ActiveUpward := by
  -- a parent was there before, so it is not the new record
  have hkeep {p : String} (hp : s.Active p) : s'.Active p := by
    refine (Store.active_of_written hwritten).2 (.inr ⟨?_, hp⟩)
    rintro rfl
    have hnew := ho.fresh
    rw [Store.contains_of_active hp] at hnew
    simp at hnew
  intro x p hx hp
  rw [Store.parentId?_of_written hwritten] at hp
  rcases (Store.active_of_written hwritten).1 hx with ⟨rfl, -⟩ | ⟨hne, hx⟩
  · rw [if_pos rfl, Option.some_inj] at hp
    obtain ⟨root, hhosts, -⟩ := ho.below p hp
    exact hkeep hhosts.active
  · rw [if_neg hne] at hp
    exact hkeep (h x p hx hp)

theorem activeUpward_edited {old new : Organization} (he : d.Edit s old new) (hs : s.Linked)
    (h : s.ActiveUpward) (hwritten : s'.organizations = s.organizations.insert new.id new) :
    s'.ActiveUpward := by
  intro x p hx hp
  rw [Store.parentId?_of_written hwritten] at hp
  rcases (Store.active_of_written hwritten).1 hx with ⟨rfl, hnew⟩ | ⟨hne, hx⟩
  · -- the edited record looks up to a parent that is active, whether it has just become active,
    -- has just come there, or both
    rw [if_pos rfl, Option.some_inj] at hp
    obtain ⟨chain, hchain, hapart⟩ := he.apart hs hp
    have hpne : p ≠ new.id := by
      rintro rfl
      exact hapart hchain.mem_self
    have hparent : s.Active p := by
      cases hold : old.isActive with
      | false => exact he.settled.activated hold hnew p hp
      | true =>
        rcases he.moved with hkept | ⟨q, hq, -, hadmits⟩
        · exact h old.id p ⟨old, he.held, hold⟩
            (Store.parentId?_eq_some.2 ⟨old, he.held, by rw [← hkept, hp]⟩)
        · rw [hp, Option.some_inj] at hq
          obtain ⟨_, _, -, -, hhosts⟩ := hadmits.fits
          exact hq ▸ hhosts.active
    exact (Store.active_of_written hwritten).2 (.inr ⟨hpne, hparent⟩)
  · rw [if_neg hne] at hp
    have hparent := h x p hx hp
    refine (Store.active_of_written hwritten).2 ?_
    by_cases hpid : p = new.id
    · -- a child of the edited record is active, so the record has not been disabled
      subst hpid
      obtain ⟨old', hget, hact⟩ := hparent
      rw [he.same, he.held, Option.some_inj] at hget
      subst hget
      refine .inl ⟨rfl, ?_⟩
      cases hnew : new.isActive with
      | true => rfl
      | false => exact absurd hx (he.settled.disabled hact hnew x (he.same ▸ hp))
    · exact .inr ⟨hpid, hparent⟩

/-- No step leaves an active record below one that is not. -/
theorem activeUpward_step (hs : s.Consistent) (hstep : d.Step s s') (h : s.ActiveUpward) :
    s'.ActiveUpward := by
  cases hstep with
  | idle heq => exact heq ▸ h
  | added o ho hwritten => exact activeUpward_added ho h hwritten
  | edited old new he hwritten => exact activeUpward_edited he hs.toLinked h hwritten
  | erased id hleaf herased =>
    intro x p hx hp
    obtain ⟨-, hx⟩ := (Store.active_of_erased herased).1 hx
    obtain ⟨-, hp⟩ := (Store.parentId?_of_erased herased).1 hp
    refine (Store.active_of_erased herased).2 ⟨?_, h x p hx hp⟩
    rintro rfl
    exact hleaf x hp

/-- **No organization is active below a disabled one.** After whatever changes, made or refused, the
parent of an active organization is active, and so is every organization above. -/
theorem active_after (d : Directory) (first : Int64) (requests : List Request) :
    (d.after first requests).store.ActiveUpward ∧
      ∀ id, (d.after first requests).store.Active id →
        ∃ chain, Lineage (d.after first requests).store.parentId? id chain ∧
          ∀ x ∈ chain, (d.after first requests).store.Active x := by
  obtain ⟨hs, h⟩ := after_invariant (d := d) (I := Store.ActiveUpward)
    (fun x p ⟨o, ho, _⟩ => by simp [Store.empty] at ho) activeUpward_step first requests
  refine ⟨h, fun id hid => ?_⟩
  obtain ⟨chain, hchain⟩ := hs.lineage (Store.contains_of_active hid)
  exact ⟨chain, hchain, h.lineage hchain hid⟩

/-- A small tree is disabled from below, and activated again from above. -/
def reopened : List Request :=
  let switch (id status : String) : Mutation :=
    .patch .epoch id [⟨.replace, "/status", some (.string status)⟩]
  List.map Mutation.plain [
    .add .epoch "root" (.new .epoch "Root"),
    .add .epoch "child" { Organization.new .epoch "Child" with parentId := some "root" },
    switch "child" "DISABLED",
    switch "root" "DISABLED",
    -- refused
    switch "child" "ACTIVE",
    switch "root" "ACTIVE",
    switch "child" "ACTIVE"]

theorem active_after_reopened :
    (standard.after 1 reopened).store.Active "child" ∧
      ∃ chain, Lineage (standard.after 1 reopened).store.parentId? "child" chain ∧
        ∀ x ∈ chain, (standard.after 1 reopened).store.Active x := by
  have hchild : (standard.after 1 reopened).store.Active "child" := by decide +kernel
  exact ⟨hchild, (active_after standard 1 reopened).2 "child" hchild⟩

end Directory

end OrgForest
