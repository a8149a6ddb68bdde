import OrgForest.Directory.Change
import OrgForest.Proofs.Hierarchy.Standing

/-!
# What the checks of a directory ask for

The checks before a change look up a good deal, but none of them writes, and none of them looks at
the record that is to be changed as a whole: that has been loaded before. What a check finds out in
disturbed surroundings is another question, and does not matter here.

* `StoreCall.Beside` — look-ups other than that of one record;
* `Directory.vetStatus_asks`, `Directory.vetMove_asks`, `Directory.requireFreeName_asks` — the
  checks ask for such look-ups only.
-/

namespace OrgForest

/-- A look-up, but not of the record of an id. -/
def StoreCall.Beside (id : String) (c : StoreCall) : Prop := c.isWrite = false ∧ c ≠ .get id

theorem StoreCall.OfLinks.beside {c : StoreCall} (h : c.OfLinks) (id : String) : c.Beside id := by
  refine ⟨h.isWrite, ?_⟩
  rintro rfl
  rcases h with ⟨x, hx⟩ | ⟨x, hx⟩ <;> cases hx

namespace Hierarchy

variable {id : String}

theorem onStableTree_asks {α : Type} {walk : Action α} (hwalk : walk.Asks StoreCall.OfLinks)
    (limit : Nat) (id : String) : (onStableTree limit walk).Asks (StoreCall.Beside id) := by
  have hversion : (Action.call .structureVersion).Asks (StoreCall.Beside id) :=
    Action.asks_call ⟨rfl, nofun⟩
  have hretry (attempts left : Nat) :
      (retry attempts walk left).Asks (StoreCall.Beside id) := by
    induction left with
    | zero => exact Action.asks_throw _
    | succ left ih =>
      refine hversion.bind fun before => ?_
      refine (hwalk.mono fun c hc => hc.beside id).attempt.bind fun outcome => ?_
      refine hversion.bind fun after => ?_
      split
      · exact Action.asks_ofExcept outcome
      · exact ih
  exact hretry _ _

theorem chainOf_asks (limit : Nat) (x : String) :
    (chainOf limit x).Asks (StoreCall.Beside id) :=
  onStableTree_asks (climb_asks x) limit id

theorem isAbove_asks (limit : Nat) (ancestor x : String) :
    (isAbove limit ancestor x).Asks (StoreCall.Beside id) :=
  (chainOf_asks limit x).bind fun _ => Action.asks_pure _

theorem heightOf_asks (limit : Nat) (x : String) :
    (heightOf limit x).Asks (StoreCall.Beside id) :=
  (onStableTree_asks (descend_asks x true) limit id).bind fun _ => Action.asks_pure _

end Hierarchy

namespace Directory

variable {d : Directory} {id : String}

/-! ## Names -/

theorem rootOf_asks (x : String) : (d.rootOf x).Asks (StoreCall.Beside id) :=
  (Hierarchy.chainOf_asks _ x).bind fun _ => Action.asks_pure _

theorem clashesWith_asks (root : Option String) (isRoot : Bool) (other : Organization) :
    (d.clashesWith root isRoot other).Asks (StoreCall.Beside id) := by
  unfold clashesWith
  split
  · exact Action.asks_pure _
  · split
    · exact Action.asks_pure _
    · split
      · exact Action.asks_pure _
      · exact (rootOf_asks other.id).bind fun _ => Action.asks_pure _

theorem anyClash_asks (root : Option String) (isRoot : Bool) (exclude : Option String) :
    ∀ os, (d.anyClash root isRoot exclude os).Asks (StoreCall.Beside id)
  | [] => Action.asks_pure _
  | o :: os => by
    rw [anyClash]
    split
    · exact anyClash_asks root isRoot exclude os
    · refine (clashesWith_asks root isRoot o).bind fun clash => ?_
      split
      · exact Action.asks_pure _
      · exact anyClash_asks root isRoot exclude os

theorem requireFreeName_asks (x : String) (current candidate : Organization) :
    (d.requireFreeName x current candidate).Asks (StoreCall.Beside id) := by
  refine (rootOf_asks x).bind fun root => ?_
  refine Action.Asks.bind ?_ fun taken => ?_
  · exact (Action.asks_call ⟨rfl, nofun⟩).bind fun found => anyClash_asks _ _ _ found
  · split
    · exact Action.asks_throw _
    · exact Action.asks_pure _

/-! ## The status -/

theorem load_asks {x : String} (hne : x ≠ id) : (load x).Asks (StoreCall.Beside id) := by
  have hget : (Action.call (.get x)).Asks (StoreCall.Beside id) := by
    refine Action.asks_call ⟨rfl, ?_⟩
    rintro h
    cases h
    exact hne rfl
  refine hget.bind fun found => ?_
  cases found with
  | none => exact Action.asks_throw _
  | some o => exact Action.asks_pure o

/-- The parent that is looked at must not be the organization itself. -/
theorem vetStatus_asks {current candidate : Organization} (x : String)
    (hparent : candidate.parentId ≠ some id) :
    (vetStatus x current candidate).Asks (StoreCall.Beside id) := by
  have hchildren : (requireNoActiveChildren x).Asks (StoreCall.Beside id) := by
    refine (Action.asks_call ⟨rfl, nofun⟩).bind fun found => ?_
    dsimp only
    split
    · exact Action.asks_pure _
    · exact Action.asks_throw _
  unfold vetStatus
  extract_lets go
  have hgo : (go ()).Asks (StoreCall.Beside id) := by
    dsimp only [go]
    split
    · cases hp : candidate.parentId with
      | none => exact Action.asks_pure _
      | some parent =>
        have hne : parent ≠ id := fun heq => hparent (heq ▸ hp)
        refine (load_asks hne).bind fun o => ?_
        split
        · exact Action.asks_pure _
        · exact Action.asks_throw _
    · exact Action.asks_pure _
  split
  · exact hchildren.bind fun _ => hgo
  · exact hgo

/-! ## Moves -/

theorem vetParent_asks {parent : String} (hne : parent ≠ id) (extra : Nat) :
    (d.vetParent parent extra).Asks (StoreCall.Beside id) := by
  have hget : (Action.call (.get parent)).Asks (StoreCall.Beside id) := by
    refine Action.asks_call ⟨rfl, ?_⟩
    rintro h
    cases h
    exact hne rfl
  refine hget.bind fun found => ?_
  cases found with
  | none => exact Action.asks_throw _
  | some o =>
    dsimp only
    split
    · exact Action.asks_throw _
    · refine (Hierarchy.chainOf_asks _ parent).bind fun chain => ?_
      cases chain with
      | nil => exact Action.asks_throw _
      | cons root rest =>
        dsimp only
        split
        · exact Action.asks_pure _
        · split
          · exact Action.asks_throw _
          · exact Action.asks_pure _

theorem vetMove_asks {current : Organization} {parent : Option String} (hne : parent ≠ some id) :
    (d.vetMove current parent).Asks (StoreCall.Beside id) := by
  unfold vetMove
  cases parent with
  | none =>
    dsimp only
    split
    · exact Action.asks_pure _
    · exact Action.asks_throw _
  | some parent =>
    have hne : parent ≠ id := fun heq => hne (congrArg some heq)
    -- the rest, once it is known whether the new parent stands below the organization
    have hrest (below : Bool) : (do
        if below then throw (.badRequest (.movedBelowItself current.id))
        let height ← Hierarchy.heightOf d.config.walkRetryLimit current.id
        let newRoot ← d.vetParent parent height
        if (← d.rootOf current.id) ≠ some newRoot then
          throw (.badRequest (.otherHierarchy current.id)) : Action Unit).Asks
        (StoreCall.Beside id) := by
      cases below with
      | true => exact Action.asks_throw _
      | false =>
        refine (Hierarchy.heightOf_asks _ current.id).bind fun height => ?_
        refine (vetParent_asks hne height).bind fun newRoot => ?_
        refine (rootOf_asks current.id).bind fun root => ?_
        split
        · exact Action.asks_throw _
        · exact Action.asks_pure _
    dsimp only
    split
    · exact Action.asks_throw _
    · split
      · exact hrest true
      · exact (Hierarchy.isAbove_asks _ current.id parent).bind hrest

/-- A move below the organization itself is refused before anything is looked up. -/
theorem vetMove_self (current : Organization) :
    ∃ e, d.vetMove current (some current.id) = throw e := by
  unfold vetMove
  dsimp only
  by_cases hroot : current.isRoot = true
  · refine ⟨.badRequest (.rootMoved current.id), ?_⟩
    rw [if_pos hroot]
    rfl
  · refine ⟨.badRequest (.movedBelowItself current.id), ?_⟩
    rw [if_neg hroot, if_pos rfl]
    rfl

end Directory

end OrgForest
