import OrgForest.Hierarchy.Walk
import OrgForest.Proofs.Program.Still
import OrgForest.Proofs.Store.Forest

/-!
# Walks up

In still surroundings a walk up finds the lineage of an id, and the empty chain for an id without
record. Where the links dangle or go round it reports that, so it ends on any links. Nothing moves
between the two readings of the structure version, so the first walk counts.

* `Hierarchy.run_climb_way` — one walk, whatever the links are;
* `Hierarchy.run_climb`, `Hierarchy.run_climb_unknown` — one walk along a lineage, or from nowhere;
* `Hierarchy.run_onStableTree` — a walk that is made until the tree stood still;
* `Hierarchy.run_chainOf`, `Hierarchy.run_isAbove`, `Hierarchy.run_distance` — the answers read off
  it.
-/

namespace OrgForest.Hierarchy

variable {setting : Setting} {s : Surroundings} {id : String} {chain : Chain}

/-! ## One walk -/

theorem readOnly_climbRound (id : String) (way : List String × String) :
    (climbRound id way).ReadOnly := by
  obtain ⟨met, here⟩ := way
  refine (Action.readOnly_call rfl).bind fun found => ?_
  cases found with
  | none =>
    cases met with
    | nil => exact Action.readOnly_pure _
    | cons child rest => exact Action.readOnly_throw _
  | some parent =>
    dsimp only
    split
    · exact Action.readOnly_throw _
    · cases parent <;> exact Action.readOnly_pure _

theorem readOnly_climb (id : String) : (climb id).ReadOnly :=
  .iterate (readOnly_climbRound id) _

/-- A round of a walk up looks up one link. -/
theorem run_climbRound (here : String) (met : List String) :
    (climbRound id (met, here)).run setting.still s =
      match s.store.parentId? here with
      | none =>
        match met with
        | [] => (.ok (.inr []), s)
        | child :: _ => (.error (.invariantViolation (.missingParent child here)), s)
      | some parent =>
        if here ∈ met then (.error (.invariantViolation (.parentCycle id here)), s)
        else (.ok (match parent with
          | none => .inr (here :: met)
          | some p => .inl (here :: met, p)), s) := by
  have hcall : (Action.call (.parentId here)).run setting.still s =
      (.ok (s.store.parentId? here), s) := rfl
  unfold climbRound
  dsimp only
  rw [Action.run_bind, hcall]
  dsimp only
  cases s.store.parentId? here with
  | none => cases met <;> rfl
  | some parent =>
    dsimp only
    split
    · rfl
    · cases parent <;> rfl

/-- What a walk up has found at the end of its way. -/
def climbed (id : String) (found : Chain) : WayEnd → Except OrganizationError Chain
  | .root => .ok found
  | .missing x =>
    -- the last id found is the one that names what is missing
    match found with
    | [] => .ok []
    | child :: _ => .error (.invariantViolation (.missingParent child x))
  | .again x => .error (.invariantViolation (.parentCycle id x))

/-- Rounds of a walk up go along the way from the next id, and come to its end. -/
theorem run_climb_rounds {here : String} {met way : List String} {last : WayEnd}
    (h : Way s.store.parentId? met here way last) {horizon n : Nat} (hn : way.length < n) :
    (Action.rounds horizon (climbRound id) n (met, here)).run setting.still s =
      (climbed id (way.reverse ++ met) last, s) := by
  -- along the way, with a round for each of its ids and one for its end
  induction h generalizing n with
  | root hnew hup =>
    obtain ⟨n, rfl⟩ := Nat.exists_eq_add_of_lt hn
    rw [Action.run_rounds_succ, run_climbRound, hup]
    dsimp only
    rw [if_neg hnew]
    rfl
  | @missing met here hnew hup =>
    obtain ⟨n, rfl⟩ := Nat.exists_eq_add_of_lt hn
    rw [Action.run_rounds_succ, run_climbRound, hup]
    cases met <;> rfl
  | again hmem hup =>
    obtain ⟨n, rfl⟩ := Nat.exists_eq_add_of_lt hn
    rw [Action.run_rounds_succ, run_climbRound, hup]
    dsimp only
    rw [if_pos hmem]
    rfl
  | @link met way here parent last hnew hup above ih =>
    obtain ⟨n, rfl⟩ := Nat.exists_eq_add_of_lt hn
    rw [Action.run_rounds_succ, run_climbRound, hup]
    dsimp only
    rw [if_neg hnew]
    dsimp only
    rw [ih (by rw [List.length_cons]; omega), List.reverse_cons, List.append_assoc]
    rfl

/-- A walk up comes to the end of the way from where it starts. -/
theorem run_climb_way {way : List String} {last : WayEnd}
    (h : Way s.store.parentId? [] id way last) :
    (climb id).run setting.still s = (climbed id way.reverse last, s) := by
  have hsize : way.length < s.store.organizations.size + 1 :=
    Nat.lt_succ_of_le (Store.length_le_of_way h)
  rw [climb, Action.run_iterate]
  exact (run_climb_rounds h hsize).trans (by rw [List.append_nil])

/-- A walk up finds the lineage. -/
theorem run_climb (h : Lineage s.store.parentId? id chain) :
    (climb id).run setting.still s = (.ok chain, s) := by
  rw [run_climb_way (.of_lineage h fun _ _ => List.not_mem_nil), List.reverse_reverse]
  rfl

/-- A walk up from an id without record finds nothing. -/
theorem run_climb_unknown (h : s.store.parentId? id = none) :
    (climb id).run setting.still s = (.ok [], s) := by
  rw [run_climb_way (.missing List.not_mem_nil h)]
  rfl

/-! ## Walks that count -/

/-- In still surroundings the first walk counts. -/
theorem run_onStableTree {α : Type} {walk : Action α} (hwalk : walk.ReadOnly) (limit : Nat) :
    (onStableTree limit walk).run setting.still s = walk.run setting.still s := by
  obtain ⟨left, hleft⟩ : ∃ left, max limit 1 = left + 1 := ⟨max limit 1 - 1, by omega⟩
  have hversion : (Action.call .structureVersion).run setting.still s =
      (.ok (s.store.structureVersion + s.churned), s) := rfl
  rw [onStableTree, hleft, retry, Action.run_bind, hversion]
  dsimp only
  rw [Action.run_bind, Action.run_attempt, hwalk.run]
  dsimp only
  rw [Action.run_bind, hversion]
  dsimp only
  rw [if_pos rfl, Action.run_ofExcept]

/-! ## Answers -/

theorem run_chainOf (h : Lineage s.store.parentId? id chain) (limit : Nat) :
    (chainOf limit id).run setting.still s = (.ok chain, s) := by
  rw [chainOf, run_onStableTree (readOnly_climb id), run_climb h]

theorem run_chainOf_unknown (h : s.store.parentId? id = none) (limit : Nat) :
    (chainOf limit id).run setting.still s = (.ok [], s) := by
  rw [chainOf, run_onStableTree (readOnly_climb id), run_climb_unknown h]

theorem run_isAbove (h : Lineage s.store.parentId? id chain) (limit : Nat) (ancestor : String) :
    (isAbove limit ancestor id).run setting.still s =
      (.ok (decide (ancestor ∈ chain.dropLast)), s) := by
  rw [isAbove, Action.run_bind, run_chainOf h]
  rfl

/-- A distance is read off what the two walks have found. -/
theorem run_distance {other : String} {a b : Chain}
    (ha : (climb id).run setting.still s = (.ok a, s))
    (hb : (climb other).run setting.still s = (.ok b, s)) (limit : Nat) :
    (distance limit id other).run setting.still s =
      (match Chain.distance? a b with
        | some d => .ok d
        | none => .error (.notOnSameBranch id other), s) := by
  have hwalk :
      (do return (← climb id, ← climb other) : Action (Chain × Chain)).run setting.still s =
        (.ok (a, b), s) := by
    rw [Action.run_bind, ha]
    dsimp only
    rw [Action.run_bind, hb]
    rfl
  have hread : (do return (← climb id, ← climb other) : Action (Chain × Chain)).ReadOnly :=
    (readOnly_climb id).bind fun _ => (readOnly_climb other).bind fun _ => Action.readOnly_pure _
  rw [distance, Action.run_bind, run_onStableTree hread, hwalk]
  dsimp only
  cases Chain.distance? a b <;> rfl

end OrgForest.Hierarchy
