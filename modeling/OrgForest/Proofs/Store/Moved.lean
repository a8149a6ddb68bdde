import Mathlib.Data.List.Nodup
import OrgForest.Proofs.Hierarchy.Views

/-!
# What a move does to a forest

A move rewrites one record and no other, but it is seen all over its hierarchy: whatever stands
below the record gets a new front of its chain, and the record goes from one list of children to
another.

* `Store.ChainOf.moved`, `Store.ChainOf.kept` — the chains of the branch, and all other chains;
* `InOrder`, `Store.Linked.inOrder_kids` — children stand in the order of their creation;
* `Filed`, `Store.Linked.filed_kids`, `Store.Linked.unfiled_kids` — a list of children with one that
  is there at its place, and the lists of the new parent and the old one.
-/

namespace OrgForest

/-! ## Chains -/

/-- What comes before an id in a lineage is the rest of the id's own lineage. -/
theorem Lineage.dropWhile_append {up : String → Option (Option String)} {top : String}
    {front : Chain} (h : Lineage up top front) (rest : Chain) :
    (front ++ rest).dropWhile (· != top) = top :: rest := by
  cases h with
  | root => simp
  | @child _ parent chain hup above =>
    have hbefore : ∀ x ∈ chain, (x != top) = true := by
      intro x hx
      rw [bne_iff_ne]
      rintro rfl
      exact Lineage.not_mem_above hup above hx
    rw [List.append_assoc, List.dropWhile_append_of_pos hbefore]
    simp

namespace Store.ChainOf

/-- An id has one chain. -/
theorem unique {s : Store} {x : String} {c c' : Chain} (h : s.ChainOf x c) (h' : s.ChainOf x c') :
    c = c' := by
  rcases h' with h' | ⟨hunknown, rfl⟩
  · exact h.eq_of_lineage h'
  · rcases h with h | ⟨-, rfl⟩
    · obtain ⟨q, hknown⟩ := h.known h.mem_self
      rw [hunknown] at hknown
      cases hknown
    · rfl

variable {s s' : Store} {stored : Organization} {x : String} {c : Chain}
  (hwritten : s'.organizations = s.organizations.insert stored.id stored)

include hwritten

/-- A chain that leads through the moved record leads to it by its new parent, and on as before. -/
theorem moved {p : String} {chain : Chain} (hp : stored.parentId = some p)
    (hchain : Lineage s.parentId? p chain) (hapart : stored.id ∉ chain) (hx : s.ChainOf x c)
    (hmem : stored.id ∈ c) : s'.ChainOf x (chain ++ c.dropWhile (· != stored.id)) := by
  have hnew : Lineage s'.parentId? stored.id (chain ++ [stored.id]) :=
    lineage_of_child hwritten hp hchain hapart
  rcases lineage_of_written hwritten hnew (hx.lineage_of_mem hmem) with
    ⟨hnot, -⟩ | ⟨front, rest, rfl, hfront, hmoved⟩
  · exact absurd hmem hnot
  · rw [hfront.dropWhile_append, List.append_cons]
    exact .inl hmoved

/-- All other chains are as before. -/
theorem kept (hknown : s.organizations.contains stored.id = true) (hx : s.ChainOf x c)
    (hnot : stored.id ∉ c) : s'.ChainOf x c := by
  rcases hx with hx | ⟨hunknown, rfl⟩
  · exact .inl (lineage_of_apart hwritten hx hnot)
  · refine .inr ⟨?_, rfl⟩
    rw [parentId?_of_written hwritten, if_neg, hunknown]
    rintro rfl
    obtain ⟨o, ho⟩ := Table.contains_iff.1 hknown
    rw [parentId?, ho] at hunknown
    cases hunknown

end Store.ChainOf

/-! ## Lists of children -/

/-- Strictly in the order in which children stand. -/
def InOrder (os : List Organization) : Prop :=
  os.Pairwise fun a b => compare (ChildKey.of a) (ChildKey.of b) = .lt

namespace InOrder

variable {os os' : List Organization}

theorem nodup (h : InOrder os) : os.Nodup := by
  refine h.imp fun {a b} hlt heq => ?_
  rw [heq, Std.ReflOrd.compare_self] at hlt
  cases hlt

/-- Such a list is known by its members. -/
theorem ext (h : InOrder os) (h' : InOrder os') (hmem : ∀ o, o ∈ os ↔ o ∈ os') : os = os' := by
  have hperm : os.Perm os' := (List.perm_ext_iff_of_nodup h.nodup h'.nodup).2 hmem
  refine hperm.eq_of_pairwise (fun a b _ _ hlt hgt => ?_) h h'
  rw [Std.OrientedOrd.eq_swap, hgt] at hlt
  cases hlt

end InOrder

/-- The place among its siblings of an organization that is listed. -/
def BasicOrganization.place (o : BasicOrganization) : ChildKey := ⟨o.created, o.id⟩

/-- One list has an organization more than another, and there it stands behind its elder siblings
and before the younger ones. -/
def Filed (o : BasicOrganization) (others all : List BasicOrganization) : Prop :=
  ∃ front back, others = front ++ back ∧ all = front ++ o :: back ∧
    (∀ c ∈ front, compare c.place o.place = .lt) ∧ ∀ c ∈ back, compare o.place c.place = .lt

/-- One more in such a list can only stand at its place. -/
theorem InOrder.filed {o : Organization} {others all : List Organization} (h : InOrder others)
    (hall : InOrder all) (ho : o ∈ all) (hmem : ∀ x, x ∈ others ↔ x ∈ all ∧ x ≠ o) :
    Filed o.basic (others.map (·.basic)) (all.map (·.basic)) := by
  obtain ⟨front, back, rfl⟩ := List.append_of_mem ho
  obtain ⟨hfront, hback, hbetween⟩ := List.pairwise_append.1 hall
  obtain ⟨hafter, hback⟩ := List.pairwise_cons.1 hback
  have hrest : InOrder (front ++ back) := hall.sublist (by simp)
  have hnot : o ∉ front ++ back := (List.nodup_cons.1 (List.nodup_middle.1 hall.nodup)).1
  -- the others are what is left without the one
  obtain rfl : others = front ++ back := by
    refine h.ext hrest fun x => ?_
    rw [hmem]
    by_cases hx : x = o
    · subst hx
      exact iff_of_false (fun hboth => hboth.2 rfl) hnot
    · simp [hx]
  refine ⟨front.map (·.basic), back.map (·.basic), by simp, by simp, ?_, ?_⟩
  · intro c hc
    obtain ⟨a, ha, rfl⟩ := List.mem_map.1 hc
    exact hbetween a ha o List.mem_cons_self
  · intro c hc
    obtain ⟨a, ha, rfl⟩ := List.mem_map.1 hc
    exact hafter a ha

/-- A store holds one record of an id. -/
theorem Store.eq_of_holds {s : Store} {o x : Organization} (ho : s.Holds o) (hx : s.Holds x)
    (hid : x.id = o.id) : x = o := by
  rw [Holds, hid] at hx
  exact Option.some.inj (hx.symm.trans ho)

namespace Store.Linked

variable {s s' : Store} {o stored : Organization} {p : String}

/-- The keys of the index are the places of the children. -/
theorem places_kids (h : s.Linked) (p : String) :
    (s.kids p).map ChildKey.of = (s.childSet p).keys := by
  have hplace : ∀ key ∈ (s.childSet p).keys,
      (s.organizations.get? key.id).map ChildKey.of = some key := by
    intro key hkey
    obtain ⟨o, ho, -, hof⟩ := (h.indexed p key).1 (Table.mem_keys.1 hkey)
    rw [ho, Option.map_some, hof]
  rw [kids, childIds, List.filterMap_map, List.map_filterMap]
  exact (List.filterMap_congr hplace).trans List.filterMap_some

theorem inOrder_kids (h : s.Linked) (p : String) : InOrder (s.kids p) := by
  have hkeys := Table.ascending_keys (s.childSet p)
  rw [← h.places_kids] at hkeys
  exact List.pairwise_map.1 hkeys

section Written

variable (hs : s.Linked) (hs' : s'.Linked) (ho : s.Holds o) (hid : stored.id = o.id)
  (hwritten : s'.organizations = s.organizations.insert stored.id stored)
  (hp : stored.parentId = some p)

include hs hs' ho hid hwritten hp

/-- The new parent has one more child, where it belongs. -/
theorem filed_kids (hnot : o.parentId ≠ some p) :
    Filed stored.basic ((s.kids p).map (·.basic)) ((s'.kids p).map (·.basic)) := by
  have hheld : s'.Holds stored := (holds_of_written hwritten).2 (.inl rfl)
  refine (hs.inOrder_kids p).filed (hs'.inOrder_kids p) (hs'.mem_kids.2 ⟨hheld, hp⟩) fun x => ?_
  rw [hs.mem_kids, hs'.mem_kids]
  constructor
  · rintro ⟨hx, hparent⟩
    -- a child from before is not the record that comes
    have hne : x.id ≠ stored.id := by
      intro heq
      rw [eq_of_holds ho hx (heq.trans hid)] at hparent
      exact hnot hparent
    exact ⟨⟨(holds_of_written hwritten).2 (.inr ⟨hne, hx⟩), hparent⟩,
      fun heq => hne (congrArg _ heq)⟩
  · rintro ⟨⟨hx, hparent⟩, hne⟩
    have hold := ((holds_of_written hwritten).1 hx).resolve_left hne
    exact ⟨hold.2, hparent⟩

/-- The old parent has one child less. -/
theorem unfiled_kids {q : String} (hq : o.parentId = some q) (hne : q ≠ p) :
    Filed o.basic ((s'.kids q).map (·.basic)) ((s.kids q).map (·.basic)) := by
  refine (hs'.inOrder_kids q).filed (hs.inOrder_kids q) (hs.mem_kids.2 ⟨ho, hq⟩) fun x => ?_
  rw [hs.mem_kids, hs'.mem_kids]
  constructor
  · rintro ⟨hx, hparent⟩
    rcases (holds_of_written hwritten).1 hx with rfl | ⟨hother, hx⟩
    · rw [hp, Option.some_inj] at hparent
      exact absurd hparent.symm hne
    · exact ⟨⟨hx, hparent⟩, fun heq => hother (by rw [heq, hid])⟩
  · rintro ⟨⟨hx, hparent⟩, hother⟩
    have hapart : x.id ≠ stored.id :=
      fun heq => hother (eq_of_holds ho hx (heq.trans hid))
    exact ⟨(holds_of_written hwritten).2 (.inr ⟨hapart, hx⟩), hparent⟩

end Written

end Store.Linked

end OrgForest
