import OrgForest.Directory.Lookup
import OrgForest.Proofs.Directory.History
import OrgForest.Proofs.Directory.Lineages
import OrgForest.Proofs.Hierarchy.Words

/-!
# Depth

A directory may have a limit to the depth of its organizations. An addition is checked against it
with the depth of the parent alone; a move takes along all that stands below the moved organization,
so its check adds their height.

* `Directory.Shallow` — no record is deeper than the limit;
* `Directory.shallow_step` — no step makes one so;
* `Directory.depth_after` — every depth that is asked for is within the limit.
-/

namespace OrgForest.Directory

/-- No lineage has more links than the limit of the directory, if it has one. -/
def Shallow (d : Directory) (s : Store) : Prop :=
  ∀ limit, d.config.maxDepth = some limit →
    ∀ id chain, Lineage s.parentId? id chain → chain.length ≤ limit + 1

variable {d : Directory} {s s' : Store}

theorem shallow_added {o : Organization} (ho : d.Newcomer s o) (hs : s.Linked) (h : d.Shallow s)
    (hwritten : s'.organizations = s.organizations.insert o.id o) : d.Shallow s' := by
  intro limit hlimit x c hx
  rcases ho.lineage hs hwritten hx with ⟨-, hx⟩ | ⟨-, ⟨-, rfl⟩ | ⟨p, chain, hp, hchain, rfl⟩⟩
  · exact h limit hlimit x c hx
  · exact Nat.le_add_left 1 limit
  · -- the check has compared the length of the parent's lineage, which is the depth of the child
    obtain ⟨root, hhosts, -⟩ := ho.below p hp
    obtain ⟨chain', hchain', -, hfits⟩ := hhosts.placed
    obtain rfl := hchain.unique hchain'
    have := hfits limit hlimit
    rw [List.length_append, List.length_singleton]
    omega

theorem shallow_edited {old new : Organization} (he : d.Edit s old new) (hs : s.Linked)
    (h : d.Shallow s) (hwritten : s'.organizations = s.organizations.insert new.id new) :
    d.Shallow s' := by
  intro limit hlimit x c hx
  rcases he.lineage hs hwritten hx with
    hx | ⟨p, chain, front, rest, hadmits, hchain, hfront, hold, rfl⟩
  · exact h limit hlimit x c hx
  · obtain ⟨root, height, -, hend, hhosts⟩ := hadmits.fits
    obtain ⟨chain', hchain', -, hfits⟩ := hhosts.placed
    obtain rfl := hchain.unique hchain'
    -- what comes along stands at most as many ranks below the moved record as its height says
    have hrest : rest.length ≤ height := by
      have hrank : x ∈ s.rank old.id rest.length := (hs.mem_rank hfront).2 ⟨rest, rfl, hold⟩
      apply Nat.le_of_not_lt
      intro hlong
      rw [Store.rank_eq_nil_of_le hend hlong] at hrank
      simp at hrank
    have := hfits limit hlimit
    rw [List.length_append, List.length_cons]
    omega

/-- No step takes a record below the limit. -/
theorem shallow_step (hs : s.Consistent) (hstep : d.Step s s') (h : d.Shallow s) :
    d.Shallow s' := by
  cases hstep with
  | idle heq => exact heq ▸ h
  | added o ho hwritten => exact shallow_added ho hs.toLinked h hwritten
  | edited old new he hwritten => exact shallow_edited he hs.toLinked h hwritten
  | erased id hleaf herased =>
    exact fun limit hlimit x c hx => h limit hlimit x c (Store.lineage_before_erased herased hx)

theorem run_depth {setting : Setting} {s : Surroundings} {id : String} {chain : Chain}
    (h : Lineage s.store.parentId? id chain) :
    (d.depth id).run setting.still s = (.ok chain.depth, s) := by
  rw [depth, Hierarchy.depth, Action.run_bind, Hierarchy.run_chainOf h]
  rfl

theorem shallow_empty (d : Directory) : d.Shallow .empty := by
  intro limit _ x c hx
  obtain ⟨p, hp⟩ := hx.known hx.mem_self
  simp [Store.parentId?, Store.empty] at hp

/-- **No organization is deeper than the limit.** After whatever changes, made or refused, every
organization has a lineage with at most as many links as the limit allows, and their number is what
the directory answers, in a word, when it is asked for the depth. -/
theorem depth_after (d : Directory) {limit : Nat} (hlimit : d.config.maxDepth = some limit)
    (first : Int64) (requests : List Request) (setting : Setting) {id : String}
    (hid : (d.after first requests).store.organizations.contains id = true) :
    ∃ (chain : Chain) (depth : Nat), Lineage (d.after first requests).store.parentId? id chain ∧
      chain.length = depth + 1 ∧ depth ≤ limit ∧
      (d.after first requests).store.InWords (.ok (depth : Int))
        ((d.depth id).run setting.undisturbed.environment (d.after first requests).next).1 := by
  obtain ⟨hs, h⟩ := after_invariant d.shallow_empty shallow_step first requests
  obtain ⟨chain, hchain⟩ := hs.lineage hid
  have hrun : (d.depth id).run setting.still (d.after first requests).next =
      (.ok chain.depth, (d.after first requests).next) := run_depth hchain
  have hlength := h limit hlimit id chain hchain
  cases chain with
  | nil => exact absurd rfl hchain.ne_nil
  | cons root rest =>
    refine ⟨root :: rest, rest.length, hchain, rfl, by simpa using hlength, ?_⟩
    have hsize : rest.length < (d.after first requests).store.organizations.size :=
      Store.length_le_of_lineage hchain
    rw [(setting.run_undisturbed _ _).1, hrun, Chain.depth, ← Int32.ofInt_eq_ofNat]
    exact .ok (by omega) (by omega)

/-- The directory in which only the limit is chosen. -/
def limitedTo (limit : Nat) : Directory where
  config := { Config.standard "secret" with maxDepth := some limit }
  sound := by simp [Config.fault?, Config.standard]

/-- A tree with two branches, of which the longer one is then moved below the other. -/
def branchMoved : List Request :=
  let child (name parent : String) : Organization :=
    { Organization.new .epoch name with parentId := some parent }
  List.map Mutation.plain [
    .add .epoch "root" (.new .epoch "Root"),
    .add .epoch "short" (child "Short" "root"),
    .add .epoch "long" (child "Long" "root"),
    .add .epoch "leaf" (child "Leaf" "long"),
    .update .epoch "long" "Long" (child "Long" "short")]

/-- The leaf has come along to the limit. -/
theorem depth_after_branchMoved :
    (limitedTo 3).config.maxDepth = some 3 ∧
      ((limitedTo 3).after 1 branchMoved).store.organizations.contains "leaf" = true ∧
      ∃ (chain : Chain) (depth : Nat),
        Lineage ((limitedTo 3).after 1 branchMoved).store.parentId? "leaf" chain ∧
        chain.length = depth + 1 ∧ depth ≤ 3 ∧
        ((limitedTo 3).after 1 branchMoved).store.InWords (.ok (depth : Int))
          (((limitedTo 3).depth "leaf").run Setting.plain.undisturbed.environment
            ((limitedTo 3).after 1 branchMoved).next).1 :=
  ⟨rfl, by decide +kernel, depth_after (limitedTo 3) rfl 1 branchMoved _ (by decide +kernel)⟩

end OrgForest.Directory
