import OrgForest.Hierarchy.Chain
import OrgForest.Program.Basic

/-!
# Walks

Depth and descent are never stored: every answer here comes from following parent links upward or
lists of children downward, one call at a time. A walk keeps the ids it has met, so links that go
round are found out and reported.

Links may change during a walk. The structure version is therefore read before and after it, and the
walk, whatever its outcome, counts only when the two agree; otherwise it is made again, a limited
number of times.

* `climb`, `descend` — one walk up or down;
* `onStableTree` — a walk that is made until the tree stood still;
* `chainOf`, `depth`, `distance`, `parentOf`, `isAbove`, `below`, `heightOf` — the answers.
-/

namespace OrgForest.Hierarchy

/-! ## One walk -/

/-- Reads one parent link on the way up from `id`. The ids met so far come with the last one first;
the second id is the next to be looked up. -/
def climbRound (id : String) (way : List String × String) :
    Action ((List String × String) ⊕ Chain) := do
  let (met, here) := way
  match ← Action.call (.parentId here) with
  | none =>
    -- Only the first id of the way may be unknown; any other is named by a child.
    match met with
    | [] => return .inr []
    | child :: _ => throw (.invariantViolation (.missingParent child here))
  | some parent =>
    if here ∈ met then throw (.invariantViolation (.parentCycle id here))
    else
      match parent with
      | none => return .inr (here :: met)
      | some parent => return .inl (here :: met, parent)

/-- The chain of an organization. -/
def climb (id : String) : Action Chain := Action.iterate (climbRound id) ([], id)

/-- Adds the ids of children to the ids met, or finds one that is met again. -/
def meetAll : List Organization → List String → Except String (List String)
  | [], met => .ok met
  | c :: cs, met => if c.id ∈ met then .error c.id else meetAll cs (c.id :: met)

/-- The children of a list of parents, in order, with the ids met up to there. -/
def readLevel (id : String) :
    List String → List String → Action (List String × List Organization)
  | [], met => return (met, [])
  | parent :: parents, met => do
    let children ← Action.call (.children parent)
    match meetAll children met with
    | .error again => throw (.invariantViolation (.subtreeCycle id again))
    | .ok met =>
      let (met, rest) ← readLevel id parents met
      return (met, children ++ rest)

/-- Where a walk down stands. -/
structure Descent where
  met : List String
  /-- The ids whose children come next. -/
  frontier : List String
  levels : List (List Organization)

/-- Reads one level on the way down from `id`. -/
def descendRound (id : String) (recursive : Bool) (d : Descent) :
    Action (Descent ⊕ List (List Organization)) := do
  let (met, level) ← readLevel id d.frontier d.met
  if level.isEmpty then return .inr d.levels
  else if recursive then return .inl ⟨met, level.map (·.id), d.levels ++ [level]⟩
  else return .inr (d.levels ++ [level])

/-- The levels below an organization, or only the first of them. -/
def descend (id : String) (recursive : Bool) : Action (List (List Organization)) :=
  Action.iterate (descendRound id recursive) ⟨[id], [id], []⟩

/-! ## Walks that count -/

/-- Makes a walk until the structure version is the same before and after it, at most `left` times
of `attempts` in all. -/
def retry {α : Type} (attempts : Nat) (walk : Action α) : Nat → Action α
  | 0 => throw (.concurrentStructureChange attempts)
  | left + 1 => do
    let before ← Action.call .structureVersion
    -- A failure is held back as well: on a tree that moves it says nothing.
    let outcome ← walk.attempt
    let after ← Action.call .structureVersion
    if before = after then MonadExcept.ofExcept outcome else retry attempts walk left

/-- Makes a walk until the tree stood still, at most `limit` times but at least once. -/
def onStableTree {α : Type} (limit : Nat) (walk : Action α) : Action α :=
  retry (max limit 1) walk (max limit 1)

/-- The ids from the root down to an organization; none for an unknown one. -/
def chainOf (limit : Nat) (id : String) : Action Chain :=
  onStableTree limit (climb id)

/-- The number of links between an organization and its root, or `Chain.unknownDepth`. -/
def depth (limit : Nat) (id : String) : Action Int32 :=
  return Chain.depth (← chainOf limit id)

/-- The number of links between two organizations of one branch, in either order. -/
def distance (limit : Nat) (first second : String) : Action Int32 := do
  let (a, b) ← onStableTree limit do return (← climb first, ← climb second)
  match Chain.distance? a b with
  | some distance => return distance
  | none => throw (.notOnSameBranch first second)

/-- The parent of an organization that has to be there. -/
def parentOf (id : String) : Action (Option String) := do
  match ← Action.call (.parentId id) with
  | some parent => return parent
  | none => throw (.notFound (.organization id))

/-- Whether an organization stands strictly above another. -/
def isAbove (limit : Nat) (ancestor id : String) : Action Bool :=
  return ancestor ∈ (← chainOf limit id).dropLast

/-- The children of an organization, or all that stand below it, level by level. -/
def below (limit : Nat) (id : String) (recursive : Bool) : Action (List Organization) :=
  return (← onStableTree limit (descend id recursive)).flatten

/-- The number of levels below an organization. -/
def heightOf (limit : Nat) (id : String) : Action Nat :=
  return (← onStableTree limit (descend id true)).length

end OrgForest.Hierarchy
