import Mathlib.Data.List.Flatten
import Mathlib.Data.List.Nodup
import Mathlib.Data.List.Pairwise
import Mathlib.Data.List.Perm.Subperm
import Mathlib.Logic.Relation
import OrgForest.Proofs.Store.Scope

/-!
# What the index of children leads to

In a consistent store the index of children is a forest. Here nothing is asked of it: an entry may
name an id above it, one id may have many entries, and parents may disagree. What an id leads to is
then what following entries comes to, and it can be entangled: some id is named by two entries on
the way, or the id itself by one.

The ranks below an id go through every entry on the way as often as there are ways to it. So an id
is free of entanglement exactly if no id comes twice in them. The walk that gives each id once is
not concerned by any of this: it finds what the index leads to, and that is what it finds.

* `Store.Below`, `Store.AtOrBelow`, `Store.Entangled` — following entries;
* `Store.below_iff`, `Store.entangled_iff` — in terms of ranks;
* `Store.Spread` — what a walk with a queue has taken once it ends, and `Store.spread_spread`;
* `Store.mem_idsBelow_iff` — it finds every id below, once.
-/

namespace OrgForest.Store

/-! ## Following entries -/

/-- The index has a child at this place under this id. -/
def Entry (s : Store) (p : String) (key : ChildKey) : Prop := (s.childSet p).contains key = true

/-- One id names another by an entry. -/
def Names (s : Store) (p x : String) : Prop := ∃ key, s.Entry p key ∧ key.id = x

/-- Following entries from one id comes to another, through one entry at least. -/
def Below (s : Store) : String → String → Prop := Relation.TransGen s.Names

/-- Following entries from one id comes to another, or it is this one. -/
def AtOrBelow (s : Store) : String → String → Prop := Relation.ReflTransGen s.Names

/-- Following entries from an id comes to some id along two different entries, or to the id
itself. -/
inductive Entangled (s : Store) (id : String) : Prop where
  | twice {p p' : String} {key key' : ChildKey} (hp : s.AtOrBelow id p) (hp' : s.AtOrBelow id p')
      (hkey : s.Entry p key) (hkey' : s.Entry p' key') (hsame : key.id = key'.id)
      (hother : (p, key) ≠ (p', key')) : Entangled s id
  | itself (h : s.Below id id) : Entangled s id

variable {s : Store} {id x : String}

theorem names_iff {p : String} : s.Names p x ↔ x ∈ s.childIds p := by
  simp only [Names, Entry, childIds, List.mem_map, Table.mem_keys]

/-! ## Ranks -/

theorem atOrBelow_iff : s.AtOrBelow id x ↔ ∃ k, x ∈ s.rank id k := by
  constructor
  · intro h
    induction h with
    | refl => exact ⟨0, List.mem_singleton_self id⟩
    | tail _ hnames ih =>
      obtain ⟨k, hk⟩ := ih
      exact ⟨k + 1, List.mem_flatMap.2 ⟨_, hk, names_iff.1 hnames⟩⟩
  · rintro ⟨k, hx⟩
    induction k generalizing x with
    | zero =>
      rw [List.mem_singleton.1 hx]
      exact .refl
    | succ k ih =>
      obtain ⟨p, hp, hchild⟩ := List.mem_flatMap.1 hx
      exact (ih hp).tail (names_iff.2 hchild)

/-- What is of any rank but the first has been come to through an entry. -/
theorem below_iff : s.Below id x ↔ ∃ k, x ∈ s.rank id (k + 1) := by
  rw [Below, Relation.TransGen.tail'_iff]
  constructor
  · rintro ⟨p, hp, hnames⟩
    obtain ⟨k, hk⟩ := atOrBelow_iff.1 hp
    exact ⟨k, List.mem_flatMap.2 ⟨p, hk, names_iff.1 hnames⟩⟩
  · rintro ⟨k, hx⟩
    obtain ⟨p, hp, hchild⟩ := List.mem_flatMap.1 hx
    exact ⟨p, atOrBelow_iff.2 ⟨k, hp⟩, names_iff.2 hchild⟩

theorem atOrBelow_of_mem_ranksTo {k : Nat} (hx : x ∈ s.ranksTo id k) : s.AtOrBelow id x := by
  obtain ⟨j, -, hj⟩ := mem_ranksTo.1 hx
  exact atOrBelow_iff.2 ⟨j, hj⟩

/-- Under one id, no two entries name the same child exactly if its children have no repeats. -/
theorem nodup_childIds_iff {p : String} : (s.childIds p).Nodup ↔
    ∀ key, s.Entry p key → ∀ key', s.Entry p key' → key.id = key'.id → key = key' := by
  rw [childIds, List.nodup_map_iff_inj_on (Table.nodup_keys _)]
  simp only [Table.mem_keys, Entry]

/-- Without entanglement no id comes twice in the ranks: each id in them is named by one entry. -/
theorem nodup_ranksTo_of_not_entangled (h : ¬ s.Entangled id) (k : Nat) :
    (s.ranksTo id k).Nodup := by
  induction k with
  | zero => exact List.nodup_singleton id
  | succ k ih =>
    -- a repeat in the next rank is the id itself, or a child with two entries, either of them under
    -- one parent or of two parents
    rw [ranksTo_succ, List.nodup_cons, List.nodup_flatMap]
    refine ⟨fun hid => h (.itself ?_), fun p hp => ?_, ?_⟩
    · obtain ⟨p, hp, hchild⟩ := List.mem_flatMap.1 hid
      exact .tail' (atOrBelow_of_mem_ranksTo hp) (names_iff.2 hchild)
    · have hp := atOrBelow_of_mem_ranksTo hp
      refine nodup_childIds_iff.2 fun key hkey key' hkey' hsame => ?_
      refine Decidable.byContradiction fun hne => h (.twice hp hp hkey hkey' hsame ?_)
      exact fun heq => hne (Prod.ext_iff.1 heq).2
    · refine ih.imp_of_mem fun {p p'} hp hp' hne x hx hx' => ?_
      obtain ⟨key, hkey, hid⟩ := names_iff.2 hx
      obtain ⟨key', hkey', hid'⟩ := names_iff.2 hx'
      refine h (.twice (atOrBelow_of_mem_ranksTo hp) (atOrBelow_of_mem_ranksTo hp') hkey hkey'
        (hid.trans hid'.symm) ?_)
      exact fun heq => hne (Prod.ext_iff.1 heq).1

/-- With entanglement some id comes twice in them. -/
theorem not_nodup_ranksTo_of_entangled (h : s.Entangled id) :
    ∃ k, ¬ (s.ranksTo id k).Nodup := by
  cases h with
  | @twice p p' key key' hp hp' hkey hkey' hsame hother =>
    obtain ⟨j, hj⟩ := atOrBelow_iff.1 hp
    obtain ⟨j', hj'⟩ := atOrBelow_iff.1 hp'
    -- both parents are of the ranks up to the later one, and their children are in the next
    have hmem : p ∈ s.ranksTo id (max j j') := mem_ranksTo.2 ⟨j, Nat.le_max_left _ _, hj⟩
    have hmem' : p' ∈ s.ranksTo id (max j j') := mem_ranksTo.2 ⟨j', Nat.le_max_right _ _, hj'⟩
    refine ⟨max j j' + 1, fun hnd => ?_⟩
    have hlower := (nodup_ranksTo_succ.1 hnd).1
    rw [ranksTo_succ, List.nodup_cons, List.nodup_flatMap] at hnd
    obtain ⟨-, hown, hapart⟩ := hnd
    by_cases heq : p = p'
    · subst heq
      have hkeys := nodup_childIds_iff.1 (hown p hmem) key hkey key' hkey' hsame
      exact hother (by rw [hkeys])
    · have hsymm : Std.Symm (Function.onFun List.Disjoint s.childIds) :=
        ⟨fun _ _ hapart _ hx hx' => hapart hx' hx⟩
      exact hapart.forall hmem hmem' heq (names_iff.1 ⟨key, hkey, rfl⟩)
        (names_iff.1 ⟨key', hkey', hsame.symm⟩)
  | itself hself =>
    obtain ⟨k, hk⟩ := below_iff.1 hself
    refine ⟨k + 1, fun hnd => (nodup_ranksTo_succ.1 hnd).2.2 id hk ?_⟩
    exact mem_ranksTo.2 ⟨0, Nat.zero_le _, List.mem_singleton_self id⟩

/-- An id is entangled exactly if some id comes twice in the ranks below it. -/
theorem entangled_iff : s.Entangled id ↔ ∃ k, ¬ (s.ranksTo id k).Nodup := by
  refine ⟨not_nodup_ranksTo_of_entangled, fun ⟨k, hrepeat⟩ => ?_⟩
  exact Classical.byContradiction fun h => hrepeat (nodup_ranksTo_of_not_entangled h k)

/-! ## The walk with a queue -/

theorem childIds_eq_nil {p : String} (h : s.children.contains p = false) : s.childIds p = [] := by
  rw [childIds, childSet, Table.contains_eq_false.1 h]
  rfl

theorem length_keys_children :
    (s.children.keys.flatMap s.childIds).length = s.linkCount := by
  rw [← length_linkedIds, linkedIds, Table.keys, Table.values, List.flatMap_map, List.flatMap_map]
  congr 1
  -- entry by entry; the set under a key is the value beside it
  refine List.flatMap_congr fun e he => ?_
  rw [childIds, childSet, Table.mem_entries.1 he]
  rfl

/-- The children of distinct ids have an entry each. -/
theorem length_children_le {ids : List String} (hnd : ids.Nodup) :
    (ids.flatMap s.childIds).length ≤ s.linkCount := by
  have hkept : ids.flatMap s.childIds =
      (ids.filter fun id => s.children.contains id).flatMap s.childIds := by
    induction ids with
    | nil => rfl
    | cons id ids ih =>
      rw [List.filter_cons, List.flatMap_cons, ih hnd.of_cons]
      split
      · rfl
      · next hnone => rw [childIds_eq_nil (Bool.eq_false_iff.2 hnone), List.nil_append]
  -- ids with a set of children are keys of the index, so an arrangement of them is a part of it
  have hsub : List.Subperm (ids.filter fun id => s.children.contains id) s.children.keys :=
    (hnd.filter _).subperm fun id hid => Table.mem_keys.2 (List.mem_filter.1 hid).2
  obtain ⟨part, hperm, hpart⟩ := hsub
  rw [hkept, ← length_keys_children, ← (hperm.flatMap_right s.childIds).length_eq]
  exact (hpart.flatMap s.childIds).length_le

/-- What a walk with a queue takes, given the ids met before: ids that were not met, each once, that
the queue leads to; and all ids that the queue or what is taken leads to. -/
structure Spread (s : Store) (met queue taken : List String) : Prop where
  nodup : taken.Nodup
  fresh : ∀ x ∈ taken, x ∉ met
  reached : ∀ x ∈ taken, ∃ y ∈ queue, s.AtOrBelow y x
  queued : ∀ x ∈ queue, x ∈ met ∨ x ∈ taken
  closed : ∀ x ∈ taken, ∀ c ∈ s.childIds x, c ∈ met ∨ c ∈ taken

namespace Spread

variable {met queue taken : List String}

theorem nil (s : Store) (met : List String) : Spread s met [] [] where
  nodup := .nil
  fresh _ hx := by cases hx
  reached _ hx := by cases hx
  queued _ hx := by cases hx
  closed _ hx := by cases hx

/-- An id that was met is passed over. -/
theorem skip (h : Spread s met queue taken) (hmet : id ∈ met) :
    Spread s met (id :: queue) taken where
  nodup := h.nodup
  fresh := h.fresh
  reached x hx := by
    obtain ⟨y, hy, hbelow⟩ := h.reached x hx
    exact ⟨y, List.mem_cons_of_mem _ hy, hbelow⟩
  queued x hx := by
    rcases List.mem_cons.1 hx with rfl | hx
    · exact .inl hmet
    · exact h.queued x hx
  closed := h.closed

/-- A new id is taken, and its children come into the queue. -/
theorem take (h : Spread s (id :: met) (queue ++ s.childIds id) taken) (hnew : id ∉ met) :
    Spread s met (id :: queue) (id :: taken) := by
  have hnext : ∀ x, x ∈ id :: met ∨ x ∈ taken → x ∈ met ∨ x ∈ id :: taken := by
    intro x hx
    rw [List.mem_cons] at hx ⊢
    exact hx.elim (fun hx => hx.elim (fun heq => .inr (.inl heq)) .inl) fun hx => .inr (.inr hx)
  refine ⟨?_, fun x hx => ?_, fun x hx => ?_, fun x hx => ?_, fun x hx c hc => ?_⟩
  · exact List.nodup_cons.2 ⟨fun hmem => h.fresh id hmem List.mem_cons_self, h.nodup⟩
  · rcases List.mem_cons.1 hx with rfl | hx
    · exact hnew
    · exact fun hmem => h.fresh x hx (List.mem_cons_of_mem _ hmem)
  · rcases List.mem_cons.1 hx with rfl | hx
    · exact ⟨x, List.mem_cons_self, .refl⟩
    · -- from the queue it started in, or from a child that the id has put there
      obtain ⟨y, hy, hbelow⟩ := h.reached x hx
      rcases List.mem_append.1 hy with hy | hy
      · exact ⟨y, List.mem_cons_of_mem _ hy, hbelow⟩
      · exact ⟨id, List.mem_cons_self, .head (names_iff.2 hy) hbelow⟩
  · rcases List.mem_cons.1 hx with rfl | hx
    · exact .inr List.mem_cons_self
    · exact hnext x (h.queued x (List.mem_append_left _ hx))
  · rcases List.mem_cons.1 hx with rfl | hx
    · exact hnext c (h.queued c (List.mem_append_right _ hc))
    · exact hnext c (h.closed x hx c hc)

/-- What is taken is all that the queue leads to, if nothing was met before. -/
theorem mem_iff (h : Spread s [] queue taken) :
    x ∈ taken ↔ ∃ y ∈ queue, s.AtOrBelow y x := by
  refine ⟨h.reached x, ?_⟩
  rintro ⟨y, hy, hbelow⟩
  induction hbelow with
  | refl => exact (h.queued y hy).resolve_left List.not_mem_nil
  | tail _ hnames ih => exact (h.closed _ ih _ (names_iff.1 hnames)).resolve_left List.not_mem_nil

end Spread

/-- The walk does not stop before the queue is empty: every id that it takes is a new one, and what
comes into the queue with it are entries that have not been counted yet. -/
theorem spread_spread {fuel : Nat} {met queue : List String} (hmet : met.Nodup)
    (hfuel : queue.length + s.linkCount ≤ fuel + (met.flatMap s.childIds).length) :
    Spread s met queue (s.spread fuel met queue) := by
  induction fuel generalizing met queue with
  | zero =>
    have hlinks := length_children_le (s := s) hmet
    obtain rfl : queue = [] := List.eq_nil_of_length_eq_zero (by omega)
    exact .nil s met
  | succ fuel ih =>
    cases queue with
    | nil => exact .nil s met
    | cons id queue =>
      rw [List.length_cons] at hfuel
      rw [spread]
      split
      · next hid => exact (ih hmet (by omega)).skip hid
      · next hnew =>
        refine (ih (List.nodup_cons.2 ⟨hnew, hmet⟩) ?_).take hnew
        rw [List.length_append, List.flatMap_cons, List.length_append]
        omega

/-- The walk below an id finds all that following entries from it comes to, each id once. -/
theorem mem_idsBelow_iff (s : Store) (id : String) :
    (s.idsBelow id).Nodup ∧ ∀ x, x ∈ s.idsBelow id ↔ s.Below id x := by
  have hspread : Spread s [] (s.childIds id) (s.idsBelow id) :=
    spread_spread List.nodup_nil (by rw [List.flatMap_nil, List.length_nil]; omega)
  refine ⟨hspread.nodup, fun x => ?_⟩
  rw [hspread.mem_iff, Below, Relation.TransGen.head'_iff]
  simp only [names_iff]
  rfl

end OrgForest.Store
