import OrgForest.Proofs.Store.Rank
import OrgForest.Store.Scan

/-!
# What a scope covers

The organizations of a scope are read off the records where the scope is the whole forest or its
roots, and off the index of children where it is what stands below an id. In a consistent store both
give each organization that the scope covers, once, and nothing else.

* `Scope.Covers` — what a scope covers, in terms of records and lineages;
* `Store.Linked.idsBelow_eq` — the walk down the index finds rank after rank;
* `Store.Linked.mem_idsBelow` — and so all that stands below an id, once;
* `Store.Consistent.inScope_covers` — the organizations of a scope.
-/

namespace OrgForest

/-- What a scope covers. -/
def Scope.Covers (s : Store) : Scope → Organization → Prop
  | .roots, o => s.Holds o ∧ o.parentId = none
  | .all, o => s.Holds o
  | .childrenOf id, o => s.Holds o ∧ o.parentId = some id
  | .descendantsOf id, o =>
    s.Holds o ∧ ∃ chain, Lineage s.parentId? o.id chain ∧ id ∈ chain ∧ o.id ≠ id

theorem Scope.Covers.holds {s : Store} {scope : Scope} {o : Organization}
    (h : scope.Covers s o) : s.Holds o := by
  cases scope with
  | roots => exact h.1
  | all => exact h
  | childrenOf id => exact h.1
  | descendantsOf id => exact h.1

namespace Store

variable {s : Store}

/-! ## Links -/

/-- All ids that stand in the index, parent after parent. -/
def linkedIds (s : Store) : List String := s.children.values.flatMap fun set => set.keys.map (·.id)

theorem length_linkedIds (s : Store) : s.linkedIds.length = s.linkCount := by
  have hfold : ∀ (sets : List ChildSet) (n : Nat), sets.foldl (fun n set => n + set.size) n =
      n + (sets.flatMap fun set => set.keys.map (·.id)).length := by
    intro sets
    induction sets with
    | nil => intro n; rfl
    | cons set sets ih =>
      intro n
      rw [List.foldl_cons, ih, List.flatMap_cons, List.length_append, List.length_map,
        Table.length_keys]
      omega
  unfold linkedIds linkCount
  rw [hfold, Nat.zero_add]

theorem mem_linkedIds {p x : String} (hx : x ∈ s.childIds p) : x ∈ s.linkedIds := by
  unfold childIds childSet at hx
  cases hset : s.children.get? p with
  | none =>
    rw [hset] at hx
    cases hx
  | some set =>
    rw [hset] at hx
    exact List.mem_flatMap.2 ⟨set, Table.mem_values.2 ⟨p, hset⟩, hx⟩

/-- Distinct children are no more than there are links. -/
theorem length_le_linkCount {ids : List String} (hnd : ids.Nodup)
    (hids : ∀ x ∈ ids, ∃ p, x ∈ s.childIds p) : ids.length ≤ s.linkCount := by
  rw [← length_linkedIds]
  refine hnd.length_le_of_subset fun x hx => ?_
  obtain ⟨p, hp⟩ := hids x hx
  exact mem_linkedIds hp

namespace Linked

/-! ## Below an id -/

/-- Where the walk down the index stands: the ids taken from the queue so far and those in it are
distinct, they stand below the top, and the parents of all of them have been taken. -/
structure Spreading (s : Store) (top : String) (met queue : List String) : Prop where
  distinct : (queue ++ met).Nodup
  below : ∀ x ∈ queue ++ met, ∃ k, x ∈ s.rank top (k + 1)
  parents : ∀ x ∈ queue ++ met, ∀ q, x ∈ s.childIds q → q = top ∨ q ∈ met

theorem Spreading.not_mem {top id : String} {met queue : List String}
    (hw : Spreading s top met (id :: queue)) : id ∉ met := by
  intro hmem
  have hdistinct := hw.distinct
  rw [List.cons_append, List.nodup_cons] at hdistinct
  exact hdistinct.1 (List.mem_append_right _ hmem)

/-- Taking an id puts its children into the queue, which are not there yet: the id is their only
parent, and it has not been taken before. -/
theorem Spreading.next (h : s.Linked) {top id : String} {met queue : List String}
    (hw : Spreading s top met (id :: queue)) :
    Spreading s top (id :: met) (queue ++ s.childIds id) := by
  have hnew : id ∉ met := hw.not_mem
  obtain ⟨k, hk⟩ := hw.below id (by simp)
  -- the top has rank zero, and an id has one rank only
  have htop : id ≠ top := by
    rintro rfl
    have hzero : k + 1 = 0 := h.eq_of_mem_rank hk (List.mem_singleton_self id)
    omega
  have hfresh : ∀ c ∈ s.childIds id, c ∉ id :: queue ++ met := by
    intro c hc hmem
    rcases hw.parents c hmem id hc with heq | hmet
    · exact htop heq
    · exact hnew hmet
  -- the same ids as before, and the children, in another arrangement
  have hperm : (queue ++ s.childIds id ++ (id :: met)).Perm
      (s.childIds id ++ (id :: queue ++ met)) := by
    refine (List.perm_append_comm.append_right _).trans ?_
    rw [List.append_assoc]
    exact List.perm_middle.append_left _
  have hold : ∀ x, x ∈ queue ++ s.childIds id ++ (id :: met) →
      x ∈ id :: queue ++ met ∨ x ∈ s.childIds id := by
    intro x hx
    exact (List.mem_append.1 (hperm.mem_iff.1 hx)).symm
  refine ⟨?_, fun x hx => ?_, fun x hx q hq => ?_⟩
  · rw [hperm.nodup_iff, List.nodup_append]
    refine ⟨h.nodup_childIds id, hw.distinct, fun c hc x hx heq => ?_⟩
    exact hfresh c hc (heq ▸ hx)
  · rcases hold x hx with hx | hx
    · exact hw.below x hx
    · exact ⟨k + 1, List.mem_flatMap.2 ⟨id, hk, hx⟩⟩
  · rcases hold x hx with hx | hx
    · exact (hw.parents x hx q hq).imp (fun heq => heq) (List.mem_cons_of_mem _)
    · have hup := h.mem_childIds.1 hx
      rw [h.mem_childIds.1 hq, Option.some_inj, Option.some_inj] at hup
      exact .inr (hup ▸ List.mem_cons_self)

/-- The walk down the index takes what stands in the front of the queue as it stands there, and puts
its children behind the rest. -/
theorem spread_append (h : s.Linked) (fuel : Nat) {top : String} {met front back : List String}
    (hw : Spreading s top met (front ++ back)) :
    s.spread (front.length + fuel) met (front ++ back) =
        front ++ s.spread fuel (front.reverse ++ met) (back ++ front.flatMap s.childIds) ∧
      Spreading s top (front.reverse ++ met) (back ++ front.flatMap s.childIds) := by
  induction front generalizing met back with
  | nil =>
    rw [List.nil_append] at hw
    simp only [List.length_nil, Nat.zero_add, List.nil_append, List.reverse_nil, List.flatMap_nil,
      List.append_nil, true_and]
    exact hw
  | cons id front ih =>
    have hnew : id ∉ met := hw.not_mem
    have hnext : Spreading s top (id :: met) (front ++ (back ++ s.childIds id)) := by
      rw [← List.append_assoc]
      exact hw.next h
    obtain ⟨hrest, hthen⟩ := ih hnext
    -- the children of the first id come behind the rest, and in front of those of the others
    have hqueue : back ++ s.childIds id ++ front.flatMap s.childIds =
        back ++ (id :: front).flatMap s.childIds := by
      rw [List.flatMap_cons, List.append_assoc]
    have hmet : front.reverse ++ id :: met = (id :: front).reverse ++ met := by simp
    rw [hqueue, hmet] at hrest hthen
    refine ⟨?_, hthen⟩
    rw [List.length_cons, Nat.add_right_comm, List.cons_append, spread, if_neg hnew,
      List.append_assoc, hrest]
    rfl

/-- So from a rank on it gives rank after rank, up to the first that is empty. -/
theorem spread_ranks (h : s.Linked) {top : String} {k n fuel : Nat} {met : List String}
    (hw : Spreading s top met (s.rank top (k + 1))) (hfuel : s.linkCount < fuel + met.length)
    (hend : s.rank top (k + n + 1) = []) : s.spread fuel met (s.rank top (k + 1)) =
      (List.range n).flatMap fun j => s.rank top (k + j + 1) := by
  induction n generalizing k fuel met with
  | zero =>
    rw [Nat.add_zero] at hend
    rw [hend]
    cases fuel <;> rfl
  | succ n ih =>
    -- what has been taken and what comes next are different ids, each of them linked once
    have hroom : (s.rank top (k + 1) ++ met).length ≤ s.linkCount := by
      refine length_le_linkCount hw.distinct fun x hx => ?_
      obtain ⟨j, hj⟩ := hw.below x hx
      obtain ⟨p, -, hp⟩ := List.mem_flatMap.1 hj
      exact ⟨p, hp⟩
    rw [List.length_append] at hroom
    obtain ⟨rest, rfl⟩ := Nat.exists_eq_add_of_le
      (show (s.rank top (k + 1)).length ≤ fuel by omega)
    rw [← List.append_nil (s.rank top (k + 1))] at hw
    obtain ⟨hspread, hnext⟩ := h.spread_append rest hw
    rw [List.append_nil, List.nil_append] at hspread
    rw [List.nil_append] at hnext
    have hthen := @ih (k + 1) rest _ hnext (by
      rw [List.length_append, List.length_reverse]
      omega) (by rw [← hend]; congr 1; omega)
    rw [hspread, List.range_succ_eq_map, List.flatMap_cons, List.flatMap_map]
    refine congrArg (s.rank top (k + 1) ++ ·) (hthen.trans ?_)
    congr 1
    funext j
    rw [Nat.succ_eq_add_one, Nat.add_right_comm k 1 j, Nat.add_assoc k j 1]

/-- The walk down the index reads the ranks below an id one after the other. -/
theorem idsBelow_eq (h : s.Linked) {id : String} {height : Nat}
    (hend : s.rank id (height + 1) = []) :
    s.idsBelow id = (List.range height).flatMap fun k => s.rank id (k + 1) := by
  have hone : s.rank id 1 = s.childIds id := List.flatMap_singleton ..
  have hstart : Spreading s id [] (s.rank id 1) := by
    refine ⟨?_, fun x hx => ⟨0, ?_⟩, fun x hx q hq => .inl ?_⟩
    · rw [List.append_nil]
      exact h.nodup_rank id 1
    · rwa [List.append_nil] at hx
    · rw [List.append_nil, hone] at hx
      have hup := h.mem_childIds.1 hx
      rw [h.mem_childIds.1 hq, Option.some_inj, Option.some_inj] at hup
      exact hup
  have hfuel :
      s.linkCount < (s.childIds id).length + s.linkCount + 1 + ([] : List String).length := by
    omega
  have hspread := h.spread_ranks (k := 0) hstart hfuel (by rwa [Nat.zero_add])
  simp only [Nat.zero_add] at hspread
  rw [idsBelow, ← hspread, hone]

/-- All that stands below an id, each once. -/
theorem mem_idsBelow (h : s.Linked) (id : String) : (s.idsBelow id).Nodup ∧
    ∀ x, x ∈ s.idsBelow id ↔ ∃ chain, Lineage s.parentId? x chain ∧ id ∈ chain ∧ x ≠ id := by
  rw [h.idsBelow_eq (h.rank_past_size id)]
  exact ⟨h.nodup_ranks id _, fun x => h.mem_ranks (h.rank_past_size id)⟩

end Linked

/-! ## Scopes -/

theorem nodup_map_id_values (h : s.Linked) : (s.organizations.values.map (·.id)).Nodup := by
  have hkeys : s.organizations.values.map (·.id) = s.organizations.keys := by
    rw [Table.values, Table.keys, List.map_map]
    refine List.map_congr_left fun e he => ?_
    exact h.ownId e.1 e.2 (Table.mem_entries.1 he)
  rw [hkeys]
  exact Table.nodup_keys _

/-- The records of ids that have one. -/
theorem mem_records (h : s.Linked) {ids : List String} {o : Organization} :
    o ∈ ids.filterMap s.organizations.get? ↔ s.Holds o ∧ o.id ∈ ids := by
  rw [List.mem_filterMap]
  constructor
  · rintro ⟨id, hid, ho⟩
    obtain rfl := h.ownId id o ho
    exact ⟨ho, hid⟩
  · rintro ⟨ho, hid⟩
    exact ⟨o.id, hid, ho⟩

/-- A scope gives what it covers, each once. -/
theorem Consistent.inScope_covers (h : s.Consistent) (scope : Scope) :
    ∃ found, s.inScope scope = .ok found ∧ (found.map (·.id)).Nodup ∧
      ∀ o, o ∈ found ↔ scope.Covers s o := by
  cases scope with
  | roots =>
    refine ⟨_, rfl, ?_, fun o => ?_⟩
    · exact (nodup_map_id_values h.toLinked).sublist (List.filter_sublist.map _)
    · rw [List.mem_filter, ← h.holds_iff, Organization.isRoot, Option.isNone_iff_eq_none]
      rfl
  | all =>
    refine ⟨_, rfl, nodup_map_id_values h.toLinked, fun o => ?_⟩
    rw [← h.holds_iff]
    rfl
  | childrenOf id =>
    have hknown : ∀ x ∈ s.childIds id, s.organizations.contains x = true :=
      fun _ hx => h.contains_of_mem_childIds hx
    refine ⟨_, recordsOf_eq hknown, ?_, fun o => ?_⟩
    · rw [h.recorded.map_id_records hknown]
      exact h.nodup_childIds id
    · rw [mem_records h.toLinked, h.mem_childIds]
      refine and_congr_right fun ho => ?_
      rw [parentId?, show s.organizations.get? o.id = some o from ho]
      simp
  | descendantsOf id =>
    have hknown : ∀ x ∈ s.idsBelow id, s.organizations.contains x = true :=
      fun _ hx => h.contains_of_mem_idsBelow hx
    obtain ⟨hdistinct, hmem⟩ := h.mem_idsBelow id
    refine ⟨_, recordsOf_eq hknown, ?_, fun o => ?_⟩
    · rw [h.recorded.map_id_records hknown]
      exact hdistinct
    · rw [mem_records h.toLinked, hmem]
      rfl

end Store

end OrgForest
