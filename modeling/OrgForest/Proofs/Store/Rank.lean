import OrgForest.Proofs.Store.Consistent

/-!
# Ranks below an organization

What stands below an organization is counted in ranks: the organization itself is its rank zero, and
the children of one rank are the next. Ranks are read off the index of children, lineages off the
parent links. In a consistent store they say the same: an id is of rank `k` exactly if its lineage
goes on from that of the organization by `k` links.

* `Store.kids`, `Store.rank`, `Store.ranksTo` — children as records, the ids of a rank, and those of
  all ranks up to one;
* `Store.Recorded` — what the records of ranks need; links may be anything;
* `Store.Linked.mem_rank` — ranks are lineages that go on;
* `Store.Linked.nodup_rank`, `Store.Linked.lt_size_of_rank` — a rank has no repeats, and ranks end;
* `Store.Linked.mem_rank_succ`, `Store.Linked.mem_ranks` — the ranks together are all that stands
  below.
-/

namespace OrgForest

namespace Store

/-- The children of an id as records. -/
def kids (s : Store) (p : String) : List Organization :=
  (s.childIds p).filterMap s.organizations.get?

/-- The ids that stand `k` links below an id. -/
def rank (s : Store) (id : String) : Nat → List String
  | 0 => [id]
  | k + 1 => (s.rank id k).flatMap s.childIds

/-- The ids of the ranks up to one, rank after rank. -/
def ranksTo (s : Store) (id : String) : Nat → List String
  | 0 => [id]
  | k + 1 => s.ranksTo id k ++ s.rank id (k + 1)

/-- Records are stored under their own ids, and children are records. Of parents this says nothing,
so links may still dangle, go round or contradict the index. -/
structure Recorded (s : Store) : Prop where
  ownId : ∀ id o, s.organizations.get? id = some o → o.id = id
  children : ∀ p, ∀ id ∈ s.childIds p, s.organizations.contains id = true

variable {s : Store}

/-! ## Ranks in any index -/

/-- Below an empty rank there is nothing. -/
theorem rank_eq_nil_of_le {id : String} {k k' : Nat} (hk : s.rank id k = []) (hle : k ≤ k') :
    s.rank id k' = [] := by
  obtain ⟨d, rfl⟩ := Nat.exists_eq_add_of_le hle
  induction d with
  | zero => exact hk
  | succ d ih =>
    show (s.rank id (k + d)).flatMap s.childIds = []
    rw [ih (Nat.le_add_right k d), List.flatMap_nil]

theorem full_next {id : String} {k : Nat} (hfull : ∀ j ≤ k, s.rank id j ≠ [])
    (hnext : s.rank id (k + 1) ≠ []) : ∀ j ≤ k + 1, s.rank id j ≠ [] := by
  intro j hj
  rcases Nat.lt_or_eq_of_le hj with hj | rfl
  · exact hfull j (Nat.le_of_lt_succ hj)
  · exact hnext

theorem mem_ranksTo {id x : String} {k : Nat} :
    x ∈ s.ranksTo id k ↔ ∃ j ≤ k, x ∈ s.rank id j := by
  induction k with
  | zero => simp [ranksTo, rank]
  | succ k ih =>
    rw [ranksTo, List.mem_append, ih]
    constructor
    · rintro (⟨j, hj, hx⟩ | hx)
      · exact ⟨j, Nat.le_succ_of_le hj, hx⟩
      · exact ⟨k + 1, Nat.le_refl _, hx⟩
    · rintro ⟨j, hj, hx⟩
      rcases Nat.lt_or_eq_of_le hj with hj | rfl
      · exact .inl ⟨j, Nat.le_of_lt_succ hj, hx⟩
      · exact .inr hx

/-- The ranks up to the next are the id, and the children of all up to there. -/
theorem ranksTo_succ (s : Store) (id : String) (k : Nat) :
    s.ranksTo id (k + 1) = id :: (s.ranksTo id k).flatMap s.childIds := by
  induction k with
  | zero => rfl
  | succ k ih =>
    show s.ranksTo id (k + 1) ++ s.rank id (k + 2) =
      id :: (s.ranksTo id k ++ s.rank id (k + 1)).flatMap s.childIds
    rw [ih, List.flatMap_append]
    rfl

theorem ranksTo_eq_range (s : Store) (id : String) (k : Nat) :
    s.ranksTo id k = id :: (List.range k).flatMap fun j => s.rank id (j + 1) := by
  induction k with
  | zero => rfl
  | succ k ih =>
    rw [ranksTo, ih, List.range_succ, List.flatMap_append, List.flatMap_singleton, List.cons_append]

/-- The ranks up to the first that is empty are all ranks. -/
theorem mem_ranks_iff {id x : String} {height : Nat} (hend : s.rank id (height + 1) = []) :
    x ∈ (List.range height).flatMap (fun k => s.rank id (k + 1)) ↔
      ∃ k, x ∈ s.rank id (k + 1) := by
  simp only [List.mem_flatMap, List.mem_range]
  constructor
  · rintro ⟨k, -, hx⟩
    exact ⟨k, hx⟩
  · rintro ⟨k, hx⟩
    refine ⟨k, Nat.lt_of_not_le fun hle => ?_, hx⟩
    rw [rank_eq_nil_of_le hend (Nat.succ_le_succ hle)] at hx
    cases hx

theorem ranksTo_of_le {id : String} {k j : Nat} (hend : s.rank id (k + 1) = []) (hle : k ≤ j) :
    s.ranksTo id j = s.ranksTo id k := by
  obtain ⟨d, rfl⟩ := Nat.exists_eq_add_of_le hle
  induction d with
  | zero => rfl
  | succ d ih =>
    have hnone : s.rank id (k + d + 1) = [] := rank_eq_nil_of_le hend (by omega)
    rw [← Nat.add_assoc, ranksTo, hnone, List.append_nil, ih (Nat.le_add_right k d)]

theorem ranksTo_sublist {id : String} {j k : Nat} (hle : j ≤ k) :
    (s.ranksTo id j).Sublist (s.ranksTo id k) := by
  induction hle with
  | refl => exact List.Sublist.refl _
  | step _ ih => exact ih.trans (List.sublist_append_left _ _)

theorem nodup_ranksTo_succ {id : String} {k : Nat} : (s.ranksTo id (k + 1)).Nodup ↔
    (s.ranksTo id k).Nodup ∧ (s.rank id (k + 1)).Nodup ∧
      ∀ x ∈ s.rank id (k + 1), x ∉ s.ranksTo id k := by
  rw [ranksTo, List.nodup_append]
  refine and_congr_right fun _ => and_congr_right fun _ => ?_
  constructor
  · intro h x hx hmem
    exact h x hmem x hx rfl
  · rintro h x hmem y hy rfl
    exact h x hy hmem

/-- Ranks that are not empty have an id each. -/
theorem lt_length_ranksTo {id : String} {k : Nat} (hfull : ∀ j ≤ k, s.rank id j ≠ []) :
    k < (s.ranksTo id k).length := by
  induction k with
  | zero => exact Nat.one_pos
  | succ k ih =>
    have hlower := ih fun j hj => hfull j (Nat.le_succ_of_le hj)
    have hrank := List.length_pos_iff.2 (hfull (k + 1) (Nat.le_refl _))
    rw [ranksTo, List.length_append]
    omega

/-! ## Children that are records -/

namespace Recorded

theorem iff_entries : s.Recorded ↔ (∀ e ∈ s.organizations.entries, e.2.id = e.1) ∧
    ∀ set ∈ s.children.values, ∀ key ∈ set.keys, s.organizations.contains key.id = true := by
  constructor
  · intro h
    refine ⟨fun e he => h.ownId e.1 e.2 (Table.mem_entries.1 he), fun set hset key hkey => ?_⟩
    obtain ⟨p, hp⟩ := Table.mem_values.1 hset
    refine h.children p key.id ?_
    rw [childIds, childSet, hp]
    exact List.mem_map.2 ⟨key, hkey, rfl⟩
  · rintro ⟨hown, hchildren⟩
    refine ⟨fun id o ho => hown (id, o) (Table.mem_entries.2 ho), fun p id hid => ?_⟩
    obtain ⟨key, hkey, rfl⟩ := List.mem_map.1 hid
    rw [childSet] at hkey
    cases hset : s.children.get? p with
    | none =>
      rw [hset] at hkey
      cases hkey
    | some set =>
      rw [hset] at hkey
      exact hchildren set (Table.mem_values.2 ⟨p, hset⟩) key hkey

instance (s : Store) : Decidable s.Recorded := decidable_of_iff _ iff_entries.symm

/-- The records of ids that have one carry these ids. -/
theorem map_id_records (h : s.Recorded) {ids : List String}
    (hids : ∀ id ∈ ids, s.organizations.contains id = true) :
    (ids.filterMap s.organizations.get?).map (·.id) = ids := by
  induction ids with
  | nil => rfl
  | cons id ids ih =>
    obtain ⟨o, ho⟩ := Table.contains_iff.1 (hids id (by simp))
    rw [List.filterMap_cons_some ho, List.map_cons, h.ownId id o ho,
      ih fun x hx => hids x (List.mem_cons_of_mem _ hx)]

theorem map_id_kids (h : s.Recorded) (p : String) : (s.kids p).map (·.id) = s.childIds p :=
  h.map_id_records (h.children p)

theorem holds_of_mem_kids (h : s.Recorded) {p : String} {o : Organization} (ho : o ∈ s.kids p) :
    s.Holds o := by
  obtain ⟨id, -, hget⟩ := List.mem_filterMap.1 ho
  rw [Holds, h.ownId id o hget, hget]

/-- As long as no id comes twice, there are no more ranks than records, and the rank of the id
itself. -/
theorem le_size_of_ranksTo (h : s.Recorded) {id : String} {k : Nat}
    (hnd : (s.ranksTo id k).Nodup) (hfull : ∀ j ≤ k, s.rank id j ≠ []) :
    k ≤ s.organizations.size := by
  have hlength := lt_length_ranksTo hfull
  cases k with
  | zero => exact Nat.zero_le _
  | succ k =>
    -- all but the id itself are children, so they have records
    rw [ranksTo_succ] at hnd hlength
    have hsize := Table.length_le_size (List.nodup_cons.1 hnd).2 fun x hx => by
      obtain ⟨p, -, hp⟩ := List.mem_flatMap.1 hx
      exact h.children p x hp
    rw [List.length_cons] at hlength
    omega

end Recorded

namespace Linked

/-! ## Children that name their parent -/

theorem recorded (h : s.Linked) : s.Recorded :=
  ⟨h.ownId, fun _ _ hid => contains_of_parentId? (h.mem_childIds.1 hid)⟩

theorem mem_kids (h : s.Linked) {p : String} {o : Organization} :
    o ∈ s.kids p ↔ s.organizations.get? o.id = some o ∧ o.parentId = some p := by
  rw [kids, List.mem_filterMap]
  constructor
  · rintro ⟨id, hid, ho⟩
    obtain ⟨o', ho', hparent⟩ := parentId?_eq_some.1 (h.mem_childIds.1 hid)
    obtain rfl : o' = o := Option.some.inj (ho'.symm.trans ho)
    exact ⟨h.get?_own ho, hparent⟩
  · rintro ⟨ho, hparent⟩
    exact ⟨o.id, h.mem_childIds.2 (parentId?_eq_some.2 ⟨o, ho, hparent⟩), ho⟩

/-- A child stands in the index once: its record fixes the place. -/
theorem nodup_childIds (h : s.Linked) (p : String) : (s.childIds p).Nodup := by
  rw [childIds, List.Nodup, List.pairwise_map]
  -- two keys with one id are of one record, and a record has one key
  refine (Table.nodup_keys (s.childSet p)).imp_of_mem fun {a b} ha hb hne heq => hne ?_
  obtain ⟨o, ho, -, rfl⟩ := (h.indexed p a).1 (Table.mem_keys.1 ha)
  obtain ⟨o', ho', -, rfl⟩ := (h.indexed p b).1 (Table.mem_keys.1 hb)
  rw [heq] at ho
  rw [Option.some.inj (ho.symm.trans ho')]

/-! ## Ranks and lineages -/

/-- An id is of rank `k` if its lineage goes on from that of the organization by `k` links. -/
theorem mem_rank (h : s.Linked) {id : String} {front : Chain}
    (hid : Lineage s.parentId? id front) {k : Nat} {x : String} : x ∈ s.rank id k ↔
      ∃ rest, rest.length = k ∧ Lineage s.parentId? x (front ++ rest) := by
  induction k generalizing x with
  | zero =>
    simp only [rank, List.mem_singleton, List.length_eq_zero_iff, exists_eq_left, List.append_nil]
    refine ⟨fun hx => hx ▸ hid, fun hx => ?_⟩
    exact Option.some.inj (hx.getLast?.symm.trans hid.getLast?)
  | succ k ih =>
    rw [rank, List.mem_flatMap]
    constructor
    · rintro ⟨p, hp, hx⟩
      obtain ⟨rest, hlen, hlineage⟩ := ih.1 hp
      refine ⟨rest ++ [x], by simp [hlen], ?_⟩
      rw [← List.append_assoc]
      exact .child (h.mem_childIds.1 hx) hlineage
    · rintro ⟨rest, hlen, hx⟩
      -- the last link of the lineage leads to a member of the rank before
      obtain ⟨rest, y, rfl⟩ : ∃ rest' y, rest = rest' ++ [y] := by
        have hne : rest ≠ [] := by rintro rfl; simp at hlen
        exact ⟨_, _, (List.dropLast_concat_getLast hne).symm⟩
      have hne : front ++ rest ≠ [] := fun hnil => hid.ne_nil (List.append_eq_nil_iff.1 hnil).1
      rw [← List.append_assoc, Lineage.concat_iff hne] at hx
      obtain ⟨rfl, p, hup, habove⟩ := hx
      exact ⟨p, ih.2 ⟨rest, by simpa using hlen, habove⟩, h.mem_childIds.2 hup⟩

theorem nodup_rank (h : s.Linked) (id : String) : ∀ k, (s.rank id k).Nodup
  | 0 => by simp [rank]
  | k + 1 => by
    rw [rank, List.Nodup, List.pairwise_flatMap]
    refine ⟨fun p _ => h.nodup_childIds p,
      (h.nodup_rank id k).imp fun {p q} hne x hx y hy heq => ?_⟩
    -- a child of both would have two parents
    have hup := h.mem_childIds.1 hx
    rw [heq, h.mem_childIds.1 hy, Option.some_inj, Option.some_inj] at hup
    exact hne hup.symm

/-- No id is of two ranks. -/
theorem rank_disjoint (h : s.Linked) {id x : String} {front : Chain}
    (hid : Lineage s.parentId? id front) {k k' : Nat} (hk : x ∈ s.rank id k)
    (hk' : x ∈ s.rank id k') : k = k' := by
  obtain ⟨rest, rfl, hx⟩ := (h.mem_rank hid).1 hk
  obtain ⟨rest', rfl, hx'⟩ := (h.mem_rank hid).1 hk'
  rw [List.append_cancel_left (hx.unique hx')]

/-- There are no more ranks than records. -/
theorem lt_size_of_rank (h : s.Linked) {id : String} {front : Chain}
    (hid : Lineage s.parentId? id front) {k : Nat} (hk : s.rank id k ≠ []) :
    k < s.organizations.size := by
  -- the lineage of a member has `k` links below the organization, and no more ids than records
  obtain ⟨x, hx⟩ := List.exists_mem_of_ne_nil _ hk
  obtain ⟨rest, rfl, hlineage⟩ := (h.mem_rank hid).1 hx
  have hsize := length_le_of_lineage hlineage
  have hfront := List.length_pos_iff.2 hid.ne_nil
  rw [List.length_append] at hsize
  omega

/-! ## Ids without record -/

/-- Below an unknown id there is nothing. -/
theorem rank_of_unknown (h : s.Linked) {id : String} (hup : s.parentId? id = none) {k : Nat}
    (hk : k ≠ 0) : s.rank id k = [] := by
  have hone : s.rank id 1 = [] := by
    show [id].flatMap s.childIds = []
    rw [List.flatMap_singleton, List.eq_nil_iff_forall_not_mem]
    intro x hx
    -- a child would have a lineage that goes through the id
    have hchild := h.mem_childIds.1 hx
    obtain ⟨chain, hchain⟩ := h.lineage (contains_of_parentId? hchild)
    obtain ⟨above, -, habove⟩ := hchain.eq_of_child hchild
    obtain ⟨p, hknown⟩ := habove.known habove.mem_self
    rw [hup] at hknown
    cases hknown
  exact rank_eq_nil_of_le hone (by omega)

/-- No id is of two ranks, below whatever id. -/
theorem eq_of_mem_rank (h : s.Linked) {id x : String} {k k' : Nat} (hk : x ∈ s.rank id k)
    (hk' : x ∈ s.rank id k') : k = k' := by
  cases hup : s.parentId? id with
  | some parent =>
    obtain ⟨front, hfront⟩ := h.lineage (contains_of_parentId? hup)
    exact h.rank_disjoint hfront hk hk'
  | none =>
    have hzero : ∀ i, x ∈ s.rank id i → i = 0 := by
      intro i hi
      by_cases hne : i = 0
      · exact hne
      · rw [h.rank_of_unknown hup hne] at hi
        cases hi
    rw [hzero k hk, hzero k' hk']

/-- What has been met up to a rank is not met below it. -/
theorem not_met_below (h : s.Linked) {id : String} {k : Nat} {met : List String}
    (hmet : ∀ x ∈ met, ∃ j ≤ k, x ∈ s.rank id j) : ∀ x ∈ s.rank id (k + 1), x ∉ met := by
  intro x hx hmem
  obtain ⟨j, hj, hx'⟩ := hmet x hmem
  have hsame : k + 1 = j := h.eq_of_mem_rank hx hx'
  omega

/-- There are no more ranks than records, and the rank of the id itself. -/
theorem le_size_of_rank (h : s.Linked) {id : String} {k : Nat} (hk : s.rank id k ≠ []) :
    k ≤ s.organizations.size := by
  cases hup : s.parentId? id with
  | some parent =>
    obtain ⟨front, hfront⟩ := h.lineage (contains_of_parentId? hup)
    exact Nat.le_of_lt (h.lt_size_of_rank hfront hk)
  | none =>
    by_cases hne : k = 0
    · omega
    · exact absurd (h.rank_of_unknown hup hne) hk

/-- What is of any rank but the first stands strictly below the id. -/
theorem mem_rank_succ (h : s.Linked) {id x : String} : (∃ k, x ∈ s.rank id (k + 1)) ↔
    ∃ chain, Lineage s.parentId? x chain ∧ id ∈ chain ∧ x ≠ id := by
  cases hup : s.parentId? id with
  | none =>
    constructor
    · rintro ⟨k, hx⟩
      rw [h.rank_of_unknown hup (Nat.succ_ne_zero k)] at hx
      cases hx
    · rintro ⟨chain, hchain, hid, -⟩
      obtain ⟨p, hknown⟩ := hchain.known hid
      rw [hup] at hknown
      cases hknown
  | some parent =>
    obtain ⟨front, hfront⟩ := h.lineage (contains_of_parentId? hup)
    constructor
    · rintro ⟨k, hx⟩
      obtain ⟨rest, hlen, hchain⟩ := (h.mem_rank hfront).1 hx
      refine ⟨_, hchain, List.mem_append_left _ hfront.mem_self, ?_⟩
      rintro rfl
      -- two lineages of one id would differ in length
      have heq := congrArg List.length (hchain.unique hfront)
      rw [List.length_append] at heq
      omega
    · rintro ⟨chain, hchain, hid, hne⟩
      obtain ⟨front', rest, rfl, hfront'⟩ := hchain.split hid
      obtain rfl : front = front' := hfront.unique hfront'
      have hx : x ∈ s.rank id rest.length := (h.mem_rank hfront).2 ⟨rest, rfl, hchain⟩
      have hpos : rest.length ≠ 0 := by
        intro hzero
        rw [hzero] at hx
        exact hne (List.mem_singleton.1 hx)
      refine ⟨rest.length - 1, ?_⟩
      rwa [Nat.sub_add_cancel (by omega)]

/-! ## Rank after rank -/

/-- No id comes twice in the ranks. -/
theorem nodup_ranksTo (h : s.Linked) (id : String) (k : Nat) : (s.ranksTo id k).Nodup := by
  induction k with
  | zero => simp [ranksTo]
  | succ k ih =>
    refine nodup_ranksTo_succ.2 ⟨ih, h.nodup_rank id (k + 1), fun x hx hmem => ?_⟩
    exact h.not_met_below (fun _ => mem_ranksTo.1) x hx hmem

/-- No id comes twice in a rank, and none is of two ranks. -/
theorem nodup_ranks (h : s.Linked) (id : String) (height : Nat) :
    ((List.range height).flatMap fun k => s.rank id (k + 1)).Nodup := by
  have hnd := h.nodup_ranksTo id height
  rw [ranksTo_eq_range] at hnd
  exact (List.nodup_cons.1 hnd).2

/-- The ranks up to the first that is empty are all that stands strictly below the id. -/
theorem mem_ranks (h : s.Linked) {id x : String} {height : Nat}
    (hend : s.rank id (height + 1) = []) :
    x ∈ (List.range height).flatMap (fun k => s.rank id (k + 1)) ↔
      ∃ chain, Lineage s.parentId? x chain ∧ id ∈ chain ∧ x ≠ id :=
  (mem_ranks_iff hend).trans h.mem_rank_succ

/-- There is no rank past the number of records. -/
theorem rank_past_size (h : s.Linked) (id : String) :
    s.rank id (s.organizations.size + 1) = [] := by
  refine Decidable.byContradiction fun hfull => ?_
  have hle := h.le_size_of_rank hfull
  omega

end Linked

end Store

end OrgForest
