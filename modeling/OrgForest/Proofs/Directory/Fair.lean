import OrgForest.Proofs.Directory.Checks
import OrgForest.Proofs.Program.Fair

/-!
# The checks of a directory are fair

Where nobody disturbs it, a walk over a store whose records form a forest always comes to its end
with an answer. So what a check refuses, it refuses for the caller's sake: none of the failures that
are the server's can occur in it.

* `Hierarchy.fair_chainOf`, `Hierarchy.fair_depth`, `Hierarchy.fair_below` — walks;
* `Directory.fair_requireFreeName`, `Directory.fair_vetMove`, `Directory.fair_vetStatus` — checks
  of names, of moves and of the status;
* `Directory.run_holdWithParent` — the loop that loads a record has one round.
-/

namespace OrgForest

variable {setting : Setting} {s : Surroundings}

/-! ## Walks -/

namespace Hierarchy

/-- A walk up finds a lineage, or nothing for an id without record. -/
theorem fair_chainOf (h : s.store.Linked) (limit : Nat) (id : String) :
    (chainOf limit id).Fair setting s := by
  cases hup : s.store.parentId? id with
  | none => exact .of_run (run_chainOf_unknown hup limit)
  | some parent =>
    obtain ⟨chain, hchain⟩ := h.lineage (Store.contains_of_parentId? hup)
    exact .of_run (run_chainOf hchain limit)

theorem fair_depth (h : s.store.Linked) (limit : Nat) (id : String) :
    (depth limit id).Fair setting s :=
  (fair_chainOf h limit id).bind fun _ => .pure _

theorem fair_below (h : s.store.Linked) (limit : Nat) (id : String) (recursive : Bool) :
    (below limit id recursive).Fair setting s := by
  obtain ⟨levels, hlevels⟩ : ∃ levels,
      (descend id recursive).run setting.still s = (.ok levels, s) := by
    cases recursive with
    | true =>
      obtain ⟨height, hrun, -⟩ : ∃ height, (descend id true).run setting.still s = _ ∧ _ :=
        run_descend h id
      exact ⟨_, hrun⟩
    | false =>
      obtain ⟨levels, hrun, -⟩ : ∃ levels, (descend id false).run setting.still s = _ ∧ _ :=
        run_descend_children h id
      exact ⟨_, hrun⟩
  have hwalk : (onStableTree limit (descend id recursive)).run setting.still s =
      (.ok levels, s) := by
    rw [run_onStableTree (readOnly_descend id recursive), hlevels]
  exact (Action.Fair.of_run hwalk).bind fun _ => .pure _

end Hierarchy

namespace Directory

variable {d : Directory} {id : String}

/-! ## Single look-ups -/

theorem fair_check {α : Type} (outcome : Except BadRequest α) :
    (Action.check outcome).Fair setting s :=
  (decides_check outcome).fair nofun

theorem fair_load (id : String) : (load id).Fair setting s :=
  (Action.Fair.of_run (run_get id)).found rfl fun _ => .pure _

/-- The two look-ups of the first round agree, so there is no second one. -/
theorem run_holdWithParent (id : String) : (holdWithParent id).run setting.still s =
    (match s.store.organizations.get? id with
      | some current => .ok (LockTable.plan (id :: current.parentId.toList), current)
      | none => .error (.notFound (.organization id)), s) := by
  have hparent : (Action.call (.parentId id)).run setting.still s =
      (.ok (s.store.parentId? id), s) := rfl
  rw [holdWithParent, Action.run_iterate]
  show (Action.rounds _ _ (s.store.organizations.size + 1) _).run _ _ = _
  rw [Action.run_rounds_succ, holdRound, Action.run_bind, hparent]
  dsimp only
  rw [Action.run_bind, run_load]
  cases hget : s.store.organizations.get? id with
  | none => rfl
  | some current =>
    have hjoin : (s.store.parentId? id).join = current.parentId := by
      rw [Store.parentId?, hget]
      rfl
    dsimp only
    rw [hjoin, if_pos rfl]
    rfl

theorem fair_holdWithParent (id : String) : (holdWithParent id).Fair setting s := by
  have hrun : (holdWithParent id).run setting.still s = _ := run_holdWithParent id
  cases hget : s.store.organizations.get? id with
  | none =>
    rw [hget] at hrun
    exact .of_refused hrun nofun
  | some current =>
    rw [hget] at hrun
    exact .of_run hrun

/-! ## Names -/

theorem fair_rootOf (h : s.store.Linked) (id : String) : (d.rootOf id).Fair setting s :=
  (Hierarchy.fair_chainOf h _ id).bind fun _ => .pure _

theorem fair_requireFreeName (h : s.store.Linked) {current candidate : Organization}
    (hid : s.store.organizations.contains id = true) :
    (d.requireFreeName id current candidate).Fair setting s :=
  (decides_requireFreeName h hid).fair nofun

/-! ## Parents -/

theorem fair_vetMove (h : s.store.Linked) {current : Organization}
    (hcurrent : s.store.Holds current) (parent : Option String) :
    (d.vetMove current parent).Fair setting s :=
  (decides_vetMove h hcurrent parent).fair nofun

/-! ## The status -/

theorem fair_requireActiveParent (id parent : String) :
    (requireActiveParent id parent).Fair setting s := by
  refine (fair_load parent).bind fun o => ?_
  split
  · exact .pure ()
  · exact .throw nofun

theorem fair_requireNoActiveChildren (h : s.store.Linked) (id : String) :
    (requireNoActiveChildren id).Fair setting s :=
  (decides_requireNoActiveChildren h id).fair nofun

theorem fair_vetStatus (h : s.store.Linked) (id : String) (current candidate : Organization) :
    (vetStatus id current candidate).Fair setting s := by
  unfold vetStatus
  extract_lets go
  have hgo : (go ()).Fair setting s := by
    dsimp only [go]
    split
    · cases candidate.parentId with
      | none => exact .pure ()
      | some parent => exact fair_requireActiveParent id parent
    · exact .pure ()
  split
  · exact (fair_requireNoActiveChildren h id).bind fun _ => hgo
  · exact hgo

end Directory

end OrgForest
