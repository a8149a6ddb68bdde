import OrgForest.Proofs.Store.Rank

/-!
# What moves the structure of a store

The structure of a store is its parent links and its index of children. The structure version counts
the changes of it: it grows by one with every insertion, deletion and move that is accepted and with
every clearing, and stands still with everything else. Two readings of the version that agree are
therefore readings of one tree.

* `Store.Restructures` — the changes that count;
* `Store.SameLinks` — two stores with one structure;
* `Store.Consistent.restructures_or` — a change counts, or it leaves the structure as it is;
* `Store.Consistent.restructures_iff` — nothing else counts but a clearing.
-/

namespace OrgForest.Store

variable {s t u : Store}

/-! ## Changes that count -/

/-- A change of structure: an accepted insertion, deletion or move to another parent, or a
clearing. -/
def Restructures (s : Store) : StoreChange → Prop
  | .insert o b => ∃ stored, (s.insert o b).1 = .inserted stored
  | .update o expected =>
    (∃ stored, (s.update o expected).1 = .ok (.updated stored)) ∧
      s.parentId? o.id ≠ some o.parentId
  | .delete id => ∃ gone, (s.delete id).1 = .deleted gone
  | .clear => True

/-! ## Stores with the same structure -/

/-- Two stores with the same links, read upward and downward. -/
structure SameLinks (s t : Store) : Prop where
  up : t.parentId? = s.parentId?
  down : t.children = s.children

namespace SameLinks

theorem refl (s : Store) : s.SameLinks s := ⟨rfl, rfl⟩

theorem trans (h : s.SameLinks t) (h' : t.SameLinks u) : s.SameLinks u :=
  ⟨h'.up.trans h.up, h'.down.trans h.down⟩

theorem childIds (h : s.SameLinks t) (id : String) : t.childIds id = s.childIds id := by
  unfold Store.childIds childSet
  rw [h.down]

theorem rank (h : s.SameLinks t) (id : String) : ∀ k, t.rank id k = s.rank id k
  | 0 => rfl
  | k + 1 => by
    have hids : t.childIds = s.childIds := funext h.childIds
    show (t.rank id k).flatMap t.childIds = (s.rank id k).flatMap s.childIds
    rw [h.rank id k, hids]

theorem contains (h : s.SameLinks t) (id : String) :
    t.organizations.contains id = s.organizations.contains id := by
  have hup : (t.parentId? id).isSome = (s.parentId? id).isSome := by rw [h.up]
  unfold parentId? at hup
  rw [Option.isSome_map, Option.isSome_map] at hup
  exact hup

/-- Stores with the same links have the same ids, so neither holds more records. -/
theorem size_le (h : s.SameLinks t) : s.organizations.size ≤ t.organizations.size := by
  rw [← Table.length_keys s.organizations]
  refine Table.length_le_size (Table.nodup_keys _) fun id hid => ?_
  rw [h.contains]
  exact Table.mem_keys.1 hid

end SameLinks

/-! ## One change -/

/-- A record that is replaced under its parent leaves the structure as it is. -/
theorem sameLinks_replaced {o existing : Organization}
    (hget : s.organizations.get? o.id = some existing) (hparent : existing.parentId = o.parentId) :
    s.SameLinks (s.replaced o) :=
  ⟨parentId?_of_kept (show (s.replaced o).organizations = _ from rfl) hget hparent, rfl⟩

/-- A change counts, and the version grows by one, or it leaves the structure as it is. -/
theorem Consistent.restructures_or (h : s.Consistent) (c : StoreChange) :
    s.Restructures c ∧ (s.change c).structureVersion = s.structureVersion + 1 ∨
      ¬ s.Restructures c ∧ (s.change c).structureVersion = s.structureVersion ∧
        s.SameLinks (s.change c) := by
  -- whatever is refused leaves the whole store as it is
  have hidle {c : StoreChange} (hno : ¬ s.Restructures c) (hsame : s.change c = s) :
      ¬ s.Restructures c ∧ (s.change c).structureVersion = s.structureVersion ∧
        s.SameLinks (s.change c) := by
    rw [hsame]
    exact ⟨hno, rfl, .refl s⟩
  cases c with
  | insert o b =>
    rcases insert_cases s o b with ⟨hno, hsame⟩ | ⟨-, -, -, haccepted⟩
    · exact .inr (hidle (fun ⟨stored, hyes⟩ => hno stored hyes) hsame)
    · refine .inl ⟨⟨_, congrArg Prod.fst haccepted⟩, ?_⟩
      show (s.insert o b).2.structureVersion = _
      rw [haccepted]
      rfl
  | update o expected =>
    rcases update_cases s o expected with
      ⟨hno, hsame⟩ | ⟨existing, hget, -, ⟨hparent, haccepted⟩ | ⟨hparent, -, haccepted⟩⟩
    · exact .inr (hidle (fun ⟨⟨stored, hyes⟩, _⟩ => hno stored hyes) hsame)
    · have hup : s.parentId? o.id = some o.parentId :=
        parentId?_eq_some.2 ⟨existing, hget, hparent⟩
      have hchange : s.change (.update o expected) = s.replaced (o.asNext existing) :=
        congrArg Prod.snd haccepted
      refine .inr ⟨fun hmoved => hmoved.2 hup, ?_⟩
      rw [hchange]
      exact ⟨rfl, sameLinks_replaced (o := o.asNext existing) hget hparent⟩
    · have hup : s.parentId? o.id ≠ some o.parentId := by
        intro hsame
        obtain ⟨o', ho', hparent'⟩ := parentId?_eq_some.1 hsame
        rw [hget, Option.some_inj] at ho'
        exact hparent (ho' ▸ hparent')
      refine .inl ⟨⟨⟨_, congrArg Prod.fst haccepted⟩, hup⟩, ?_⟩
      show (s.update o expected).2.structureVersion = _
      rw [haccepted]
      rfl
  | delete id =>
    rcases delete_cases s id with ⟨hno, hsame⟩ | ⟨existing, hget, -, hgone, haccepted⟩
    · exact .inr (hidle (fun ⟨gone, hyes⟩ => hno gone hyes) hsame)
    · -- every record has a binding, which is what the description of the new store asks for
      obtain ⟨b, hb⟩ := Table.contains_iff.1 ((h.bound id).2 (Table.contains_of_get? hget))
      refine .inl ⟨⟨existing, hgone⟩, ?_⟩
      show (s.delete id).2.structureVersion = _
      rw [haccepted b (h.ownId id existing hget) hb]
      rfl
  | clear => exact .inl ⟨trivial, rfl⟩

/-- A change counts exactly if it changes the links or is a clearing, which counts for an empty
store as well. -/
theorem Consistent.restructures_iff (h : s.Consistent) (c : StoreChange) :
    s.Restructures c ↔ ¬ s.SameLinks (s.change c) ∨ c = .clear := by
  constructor
  · intro hyes
    cases c with
    | insert o b =>
      obtain ⟨stored, hstored⟩ := hyes
      rcases insert_cases s o b with ⟨hno, -⟩ | ⟨hnew, -, -, haccepted⟩
      · exact absurd hstored (hno stored)
      · -- the id is there afterwards only
        refine .inl fun hlinks => ?_
        have hthere : (s.change (.insert o b)).organizations.contains o.id = true := by
          rw [show s.change (.insert o b) = s.added o.asFirst b from congrArg Prod.snd haccepted]
          exact Table.contains_insert.2 (.inl rfl)
        rw [hlinks.contains, hnew] at hthere
        cases hthere
    | update o expected =>
      obtain ⟨⟨stored, hstored⟩, hmoved⟩ := hyes
      refine .inl fun hlinks => hmoved ?_
      rw [← hlinks.up]
      rcases update_cases s o expected with
        ⟨hno, -⟩ | ⟨existing, hget, -, ⟨-, haccepted⟩ | ⟨-, -, haccepted⟩⟩
      · exact absurd hstored (hno stored)
      all_goals
        rw [show s.change (.update o expected) = _ from congrArg Prod.snd haccepted]
        exact parentId?_eq_some.2 ⟨o.asNext existing, Table.get?_insert_self, rfl⟩
    | delete id =>
      obtain ⟨gone, hgone⟩ := hyes
      rcases delete_cases s id with ⟨hno, -⟩ | ⟨existing, hget, -, -, haccepted⟩
      · exact absurd hgone (hno gone)
      · -- the id is there before only
        refine .inl fun hlinks => ?_
        have hown := h.ownId id existing hget
        obtain ⟨b, hb⟩ := Table.contains_iff.1 ((h.bound id).2 (Table.contains_of_get? hget))
        have hthere := hlinks.contains id
        have hgone : (s.change (.delete id)).organizations.contains id = false := by
          rw [show s.change (.delete id) = s.removed existing b from haccepted b hown hb]
          rw [Bool.eq_false_iff]
          intro hcontains
          exact (Table.contains_erase.1 hcontains).1 hown.symm
        rw [hgone, Table.contains_of_get? hget] at hthere
        cases hthere
    | clear => exact .inr rfl
  · rintro (hlinks | rfl)
    · rcases h.restructures_or c with ⟨hyes, -⟩ | ⟨-, -, hsame⟩
      · exact hyes
      · exact absurd hsame hlinks
    · trivial

/-- A change brings in no id but that of an insertion. -/
theorem contains_of_change {c : StoreChange} {x : String}
    (hx : (s.change c).organizations.contains x = true) :
    s.organizations.contains x = true ∨ ∃ o b, c = .insert o b ∧ o.id = x := by
  cases c with
  | insert o b =>
    rcases insert_cases s o b with ⟨-, hsame⟩ | ⟨-, -, -, haccepted⟩
    · exact .inl (hsame ▸ hx)
    · have hnew : (s.organizations.insert o.id o.asFirst).contains x = true := by
        have h2 := congrArg Prod.snd haccepted
        rw [show s.change (.insert o b) = (s.insert o b).2 from rfl, h2] at hx
        exact hx
      rcases Table.contains_insert.1 hnew with rfl | hold
      · exact .inr ⟨o, b, rfl, rfl⟩
      · exact .inl hold
  | update o expected =>
    rcases update_cases s o expected with
      ⟨-, hsame⟩ | ⟨existing, hget, -, ⟨-, haccepted⟩ | ⟨-, -, haccepted⟩⟩
    · exact .inl (hsame ▸ hx)
    all_goals
      -- the id that is written was there before
      have h2 := congrArg Prod.snd haccepted
      have hnew : (s.organizations.insert o.id (o.asNext existing)).contains x = true := by
        rw [show s.change (.update o expected) = (s.update o expected).2 from rfl, h2] at hx
        exact hx
      rcases Table.contains_insert.1 hnew with rfl | hold
      · exact .inl (Table.contains_of_get? hget)
      · exact .inl hold
  | delete id =>
    have hx' : (s.delete id).2.organizations.contains x = true := hx
    unfold delete at hx'
    split at hx'
    · exact .inl hx'
    · dsimp only at hx'
      split at hx'
      · exact .inl hx'
      · exact .inl (Table.contains_erase.1 hx').2
  | clear => cases hx

end OrgForest.Store
