import Mathlib.Algebra.Order.Group.Unbundled.Int
import Mathlib.Logic.Relation
import OrgForest.Proofs.Hierarchy.Views

/-!
# Distances

Two records have a distance if they are on one branch, that is, if one is the other or stands above
it. It is read off two chains by asking whether one of them goes on where the other ends. As every
id has one chain only, this is the case exactly for records of one branch, and what is left over of
the longer chain are the links between the two.

* `Store.AtOrAbove`, `Store.OnBranch` — one branch, in terms of the stored links alone;
* `Store.ChainOf.mem_iff` — a chain is what stands at or above an id;
* `Hierarchy.Distances.Lawful` — what distances have to do with depths and with each other;
* `Hierarchy.distances_lawful` — the answers of a store whatever has been done to it.
-/

namespace OrgForest

namespace Store

/-- One id is the parent of another, by the record of the latter. -/
def ParentOf (s : Store) (parent id : String) : Prop := s.parentId? id = some (some parent)

/-- One id is another or stands above it: following parents from the latter comes to the former. -/
def AtOrAbove (s : Store) : String → String → Prop := Relation.ReflTransGen s.ParentOf

/-- Two records of one branch. -/
structure OnBranch (s : Store) (a b : String) : Prop where
  first : s.organizations.contains a = true
  second : s.organizations.contains b = true
  related : s.AtOrAbove a b ∨ s.AtOrAbove b a

variable {s : Store} {a b c : String} {ca cb : Chain}

theorem OnBranch.symm (h : s.OnBranch a b) : s.OnBranch b a := ⟨h.second, h.first, h.related.symm⟩

/-- The lineage of an id is what stands at or above it. -/
theorem mem_lineage_iff (h : Lineage s.parentId? b cb) : a ∈ cb ↔ s.AtOrAbove a b := by
  constructor
  · intro hmem
    induction h with
    | root hup =>
      rw [List.mem_singleton.1 hmem]
      exact .refl
    | @child id parent chain hup above ih =>
      rcases List.mem_append.1 hmem with hmem | hmem
      · exact (ih hmem).tail hup
      · rw [List.mem_singleton.1 hmem]
        exact .refl
  · intro habove
    -- along the links from the upper id down; each of them takes the last id off the lineage
    induction habove generalizing cb with
    | refl => exact h.mem_self
    | @tail parent id _ hup ih =>
      obtain ⟨front, rfl, hfront⟩ := h.eq_of_child hup
      exact List.mem_append_left _ (ih hfront)

namespace ChainOf

theorem lineage (h : s.ChainOf a ca) (ha : s.organizations.contains a = true) :
    Lineage s.parentId? a ca := by
  refine h.resolve_right fun hno => ?_
  obtain ⟨o, ho⟩ := Table.contains_iff.1 ha
  rw [parentId?, ho] at hno
  cases hno.1

/-- The chain of a record is what stands at or above it, and an unknown id has an empty one. -/
theorem mem_iff (h : s.ChainOf b cb) :
    a ∈ cb ↔ s.organizations.contains b = true ∧ s.AtOrAbove a b := by
  constructor
  · intro hmem
    have hlineage := h.lineage_of_mem hmem
    exact ⟨contains_of_mem hlineage hlineage.mem_self, (mem_lineage_iff hlineage).1 hmem⟩
  · rintro ⟨hb, habove⟩
    exact (mem_lineage_iff (h.lineage hb)).2 habove

/-- Only an id itself is as deep as an id that stands at or above it. -/
theorem eq_of_length_le (ha : s.ChainOf a ca) (hb : s.ChainOf b cb) (hmem : a ∈ cb)
    (hlen : cb.length ≤ ca.length) : a = b := by
  have hprefix := ha.prefix_of_mem hb hmem
  -- a prefix that is not shorter is all of the chain, and a chain ends in the id it belongs to
  obtain rfl : ca = cb := hprefix.eq_of_length_le hlen
  have hlineage := hb.lineage_of_mem hmem
  have hlast := (ha.lineage_of_mem (ha.mem_iff.2 ⟨?_, .refl⟩)).getLast?
  · exact Option.some.inj (hlast.symm.trans hlineage.getLast?)
  · exact contains_of_mem hlineage hmem

end ChainOf

end Store

namespace Hierarchy

/-! ## Answers -/

/-- Answers to the questions how deep an id stands, and how far from another. -/
structure Distances where
  depth : String → Int
  between : String → String → Except OrganizationError Int

namespace Distances

/-- What is answered by one who has walked up from every id. -/
def ofWalks (chains : String → Chain) : Distances where
  depth x := (chains x).length - 1
  between a b :=
    if a ∈ chains b then .ok ((chains b).length - (chains a).length)
    else if b ∈ chains a then .ok ((chains a).length - (chains b).length)
    else .error (.notOnSameBranch a b)

/-- These are the answers that are given, in words. -/
structure Given (m : Distances) (limit : Nat) (env : Environment Surroundings) (t : Surroundings) :
    Prop where
  depth : ∀ x, t.store.InWords (.ok (m.depth x)) ((Hierarchy.depth limit x).run env t).1
  between : ∀ a b, t.store.InWords (m.between a b) ((distance limit a b).run env t).1

/-- Distances are those of a forest. -/
structure Lawful (m : Distances) (s : Store) : Prop where
  /-- The depth of a record is the number of links up to its root. -/
  depth : ∀ x chain, Lineage s.parentId? x chain → m.depth x + 1 = chain.length
  /-- Records of one branch have a distance, which is the difference of their depths. -/
  answered : ∀ a b d, m.between a b = .ok d ↔ s.OnBranch a b ∧ d = |m.depth a - m.depth b|
  refused : ∀ a b, ¬ s.OnBranch a b → m.between a b = .error (.notOnSameBranch a b)
  symmetric : ∀ a b d, m.between a b = .ok d ↔ m.between b a = .ok d
  zero : ∀ a b, s.organizations.contains a = true → s.organizations.contains b = true →
    (m.between a b = .ok 0 ↔ a = b)
  additive : ∀ a b c, s.organizations.contains c = true → s.AtOrAbove a b → s.AtOrAbove b c →
    ∃ d e, m.between a b = .ok d ∧ m.between b c = .ok e ∧ m.between a c = .ok (d + e)
  /-- Depths and distances are less than the number of records. -/
  bounded : (∀ x, -1 ≤ m.depth x ∧ m.depth x < s.organizations.size) ∧
    ∀ a b d, m.between a b = .ok d → 0 ≤ d ∧ d < s.organizations.size

end Distances

variable {setting : Setting} {t : Surroundings} {s : Store} {a b c x : String}
  {chains : String → Chain}

/-! ## Distances of chains -/

theorem depth_eq (x : String) :
    (Distances.ofWalks chains).depth x = ((chains x).length : Int) - 1 := rfl

/-- A distance is what one chain has more than the other, if it goes through the other's id. -/
theorem between_eq (a b : String) : (Distances.ofWalks chains).between a b =
    if a ∈ chains b then .ok ((chains b).length - (chains a).length)
    else if b ∈ chains a then .ok ((chains a).length - (chains b).length)
    else .error (.notOnSameBranch a b) := rfl

theorem between_of_mem (h : a ∈ chains b) :
    (Distances.ofWalks chains).between a b = .ok ((chains b).length - (chains a).length) := by
  rw [between_eq, if_pos h]

section Chains

variable (hchains : ∀ x, s.ChainOf x (chains x))

include hchains

theorem length_le_of_mem (h : a ∈ chains b) : (chains a).length ≤ (chains b).length :=
  ((hchains a).prefix_of_mem (hchains b) h).length_le

/-- Two records are on one branch exactly if the chain of one goes through the other. -/
theorem onBranch_iff : s.OnBranch a b ↔ a ∈ chains b ∨ b ∈ chains a := by
  rw [(hchains b).mem_iff, (hchains a).mem_iff]
  constructor
  · rintro ⟨ha, hb, habove | habove⟩
    · exact .inl ⟨hb, habove⟩
    · exact .inr ⟨ha, habove⟩
  · -- a chain goes through records only, so the upper id has one as well
    rintro (⟨hb, habove⟩ | ⟨ha, habove⟩)
    · have hmem := (hchains b).mem_iff.2 ⟨hb, habove⟩
      exact ⟨Store.contains_of_mem ((hchains b).lineage hb) hmem, hb, .inl habove⟩
    · have hmem := (hchains a).mem_iff.2 ⟨ha, habove⟩
      exact ⟨ha, Store.contains_of_mem ((hchains a).lineage ha) hmem, .inr habove⟩

/-- The distance is the same from either end. -/
theorem between_of_mem_swap (h : b ∈ chains a) :
    (Distances.ofWalks chains).between a b = .ok ((chains a).length - (chains b).length) := by
  by_cases hab : a ∈ chains b
  · -- each chain goes through the other's id, so there is one chain only
    have hle := length_le_of_mem hchains hab
    have hge := length_le_of_mem hchains h
    rw [between_of_mem hab]
    congr 1
    omega
  · rw [between_eq, if_neg hab, if_pos h]

theorem between_eq_ok {d : Int} : (Distances.ofWalks chains).between a b = .ok d ↔
    s.OnBranch a b ∧
      d = |(Distances.ofWalks chains).depth a - (Distances.ofWalks chains).depth b| := by
  rw [onBranch_iff hchains, depth_eq, depth_eq]
  -- the id that the other's chain goes through is the upper one, and the other is at least as deep
  by_cases hab : a ∈ chains b
  · have hle := length_le_of_mem hchains hab
    rw [between_of_mem hab, Except.ok.injEq, abs_sub_comm, abs_of_nonneg (by omega)]
    constructor
    · intro h
      exact ⟨.inl hab, by omega⟩
    · rintro ⟨-, h⟩
      omega
  · by_cases hba : b ∈ chains a
    · have hle := length_le_of_mem hchains hba
      rw [between_of_mem_swap hchains hba, Except.ok.injEq, abs_of_nonneg (by omega)]
      constructor
      · intro h
        exact ⟨.inr hba, by omega⟩
      · rintro ⟨-, h⟩
        omega
    · rw [between_eq, if_neg hab, if_neg hba]
      simp [hab, hba]

theorem between_eq_zero (ha : s.organizations.contains a = true) :
    (Distances.ofWalks chains).between a b = .ok 0 ↔ a = b := by
  rw [between_eq_ok hchains, onBranch_iff hchains, depth_eq, depth_eq]
  constructor
  · rintro ⟨hmem, hzero⟩
    have hlen : (chains a).length = (chains b).length := by
      rw [eq_comm, abs_eq_zero] at hzero
      omega
    -- of two chains of one length neither has anything left over
    rcases hmem with hmem | hmem
    · exact (hchains a).eq_of_length_le (hchains b) hmem hlen.ge
    · exact ((hchains b).eq_of_length_le (hchains a) hmem hlen.le).symm
  · rintro rfl
    exact ⟨.inl ((hchains a).mem_iff.2 ⟨ha, .refl⟩), by simp⟩

/-- Distances along a branch add up. -/
theorem between_add (hc : s.organizations.contains c = true) (hab : s.AtOrAbove a b)
    (hbc : s.AtOrAbove b c) : ∃ d e, (Distances.ofWalks chains).between a b = .ok d ∧
      (Distances.ofWalks chains).between b c = .ok e ∧
      (Distances.ofWalks chains).between a c = .ok (d + e) := by
  have hbmem : b ∈ chains c := (hchains c).mem_iff.2 ⟨hc, hbc⟩
  have hb : s.organizations.contains b = true :=
    Store.contains_of_mem ((hchains c).lineage hc) hbmem
  have hamem : a ∈ chains b := (hchains b).mem_iff.2 ⟨hb, hab⟩
  have hall : a ∈ chains c := (hchains c).mem_iff.2 ⟨hc, hab.trans hbc⟩
  refine ⟨_, _, between_of_mem hamem, between_of_mem hbmem, ?_⟩
  rw [between_of_mem hall]
  congr 1
  omega

theorem depth_bounds (x : String) : -1 ≤ (Distances.ofWalks chains).depth x ∧
    (Distances.ofWalks chains).depth x < s.organizations.size := by
  have hsize := (hchains x).length_le_size
  rw [depth_eq]
  omega

theorem between_bounds {d : Int} (h : (Distances.ofWalks chains).between a b = .ok d) :
    0 ≤ d ∧ d < s.organizations.size := by
  obtain ⟨hbranch, rfl⟩ := (between_eq_ok hchains).1 h
  refine ⟨abs_nonneg _, ?_⟩
  -- records have chains, so neither depth is that of an unknown id
  have hdepth {x : String} (hx : s.organizations.contains x = true) :
      0 ≤ (Distances.ofWalks chains).depth x := by
    have hpos := List.length_pos_iff.2 ((hchains x).lineage hx).ne_nil
    rw [depth_eq]
    omega
  have ha := hdepth hbranch.first
  have hb := hdepth hbranch.second
  have hboundA := (depth_bounds hchains a).2
  have hboundB := (depth_bounds hchains b).2
  rw [abs_lt]
  omega

/-- What is read off chains is a distance. -/
theorem lawful_of_chains : (Distances.ofWalks chains).Lawful s where
  depth x chain hchain := by
    rw [depth_eq, (hchains x).eq_of_lineage hchain]
    omega
  answered a b d := between_eq_ok hchains
  refused a b hapart := by
    rw [onBranch_iff hchains, not_or] at hapart
    rw [between_eq, if_neg hapart.1, if_neg hapart.2]
  symmetric a b d := by
    rw [between_eq_ok hchains, between_eq_ok hchains, abs_sub_comm]
    exact and_congr_left fun _ => ⟨.symm, .symm⟩
  zero a b ha _ := between_eq_zero hchains ha
  additive a b c := between_add hchains
  bounded := ⟨depth_bounds hchains, fun _ _ _ => between_bounds hchains⟩

end Chains

/-! ## Distances of a store -/

/-- Where nobody disturbs it, a walk up finds the chain. -/
theorem run_climb_chain (setting : Setting) {chain : Chain} (hx : t.store.ChainOf x chain) :
    (climb x).run setting.still t = (.ok chain, t) := by
  rcases hx with hx | ⟨hunknown, rfl⟩
  · exact run_climb hx
  · exact run_climb_unknown hunknown

/-- **Distances are those of a forest.** Whatever has been done to a store: two ids have a distance
exactly if both have a record and one is the other or stands above it, and then it is the difference
of their depths; any other two are not on one branch. The distance is the same from either end, it
is zero for a record and itself only, and along a branch distances add up. All this is about the
answers themselves as long as the store has fewer than 2 ^ 31 records; after that their words are too
small. -/
theorem distances_lawful (changes : List StoreChange) (setting : Setting) (nextTenantId : Int64)
    (churned limit : Nat) :
    let t : Surroundings := ⟨Store.after changes, nextTenantId, churned, []⟩
    ∃ m : Distances, m.Given limit setting.undisturbed.environment t ∧ m.Lawful t.store := by
  intro t
  have hs : t.store.Consistent := .after changes
  choose chains hrun hchains using exists_chainOf setting hs.toLinked limit
  -- nobody comes between, so both questions are answered as in still surroundings
  have hstill {α : Type} (q : Action α) :
      (q.run setting.undisturbed.environment t).1 = (q.run setting.still t).1 :=
    (setting.run_undisturbed q t).1
  refine ⟨.ofWalks chains, ⟨fun x => ?_, fun a b => ?_⟩, lawful_of_chains hchains⟩
  · have hdepth : ((depth limit x).run setting.still t).1 = .ok (Chain.depth (chains x)) :=
      run_of_chainOf (hrun x)
    rw [hstill, hdepth]
    exact (hchains x).depth
  · rw [hstill, run_distance (run_climb_chain setting (hchains a))
      (run_climb_chain setting (hchains b))]
    exact (hchains a).distance (hchains b)

end Hierarchy

end OrgForest
