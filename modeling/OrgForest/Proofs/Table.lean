import OrgForest.Table

/-!
# Contents of tables

A table is used through its look-ups. This module says what its other views (entries, keys, values,
size) and its changes are in terms of `get?`, so that no proof about a store has to open a table.

* `Table.mem_keys`, `Table.mem_values`, `Table.isEmpty_iff` — the views;
* `Table.get?_insert_self`, `Table.get?_insert_of_ne`, `Table.contains_insert`,
  `Table.contains_erase` — the changes;
* `Table.ext_contains`, `Table.insert_insert`, `Table.erase_insert` — tables that are the same;
* `Table.get?_foldl_erase`, `Table.contains_foldl_insert` — changes made one after the other;
* `Table.length_le_size` — distinct keys of a table are no more than it has entries;
* `Table.countP_values_insert`, `Table.countP_values_erase` — how many values are of a kind.
-/

namespace OrgForest.Table

variable {κ α : Type} [Ord κ] {t : Table κ α} {k k' : κ} {v : α}

@[simp] theorem contains_empty : (empty : Table κ α).contains k = false := rfl

theorem contains_iff : t.contains k = true ↔ ∃ v, t.get? k = some v := by
  rw [contains, Option.isSome_iff_exists]

theorem contains_eq_false : t.contains k = false ↔ t.get? k = none := by
  rw [contains, Option.isSome_eq_false_iff, Option.isNone_iff_eq_none]

theorem contains_of_get? (h : t.get? k = some v) : t.contains k = true :=
  contains_iff.2 ⟨v, h⟩

theorem length_keys (t : Table κ α) : t.keys.length = t.size := by
  simp [keys, size]

theorem ascending_keys (t : Table κ α) : t.keys.Pairwise fun a b => compare a b = .lt :=
  List.pairwise_map.2 t.sorted

section Order

variable [Std.LawfulEqOrd κ]

/-! ## Views -/

theorem nodup_keys (t : Table κ α) : t.keys.Nodup := by
  rw [keys, List.Nodup, List.pairwise_map]
  refine t.sorted.imp fun {a b} hlt heq => ?_
  rw [heq, Std.ReflOrd.compare_self] at hlt
  simp at hlt

variable [DecidableEq κ]

theorem mem_entries : (k, v) ∈ t.entries ↔ t.get? k = some v := by
  obtain ⟨es, hes⟩ := t
  show (k, v) ∈ es ↔ find k es = some v
  induction es with
  | nil => simp [find]
  | cons e es ih =>
    obtain ⟨k₁, v₁⟩ := e
    obtain ⟨hlt, hrest⟩ := List.pairwise_cons.1 hes
    by_cases h : k = k₁
    · subst h
      -- the entries that follow have greater keys
      have hnot : (k, v) ∉ es := fun hmem => by
        have := hlt _ hmem
        simp [Std.ReflOrd.compare_self] at this
      simp [find, Std.ReflOrd.compare_self, hnot, eq_comm]
    · simp [find, h, ih hrest]

theorem mem_values : v ∈ t.values ↔ ∃ k, t.get? k = some v := by
  simp [values, ← mem_entries]

theorem mem_keys : k ∈ t.keys ↔ t.contains k = true := by
  simp [keys, contains_iff, ← mem_entries]

theorem isEmpty_iff : t.isEmpty = true ↔ ∀ k, t.contains k = false := by
  have hkeys : t.isEmpty = true ↔ t.keys = [] := by
    simp [isEmpty, keys]
  rw [hkeys, List.eq_nil_iff_forall_not_mem]
  simp only [mem_keys, Bool.not_eq_true]

theorem isEmpty_eq_false : t.isEmpty = false ↔ ∃ k, t.contains k = true := by
  constructor
  · intro h
    obtain ⟨e, he⟩ := List.exists_mem_of_ne_nil t.entries (by simpa [isEmpty] using h)
    exact ⟨e.1, contains_of_get? (mem_entries.1 he)⟩
  · rintro ⟨k, hk⟩
    rw [Bool.eq_false_iff, ne_eq, isEmpty_iff]
    intro hempty
    rw [hempty] at hk
    simp at hk

theorem size_eq_zero : t.size = 0 ↔ ∀ k, t.contains k = false := by
  rw [← isEmpty_iff, isEmpty, size, List.isEmpty_iff, List.length_eq_zero_iff]

/-- Distinct keys of a table are no more than it has entries. -/
theorem length_le_size {ks : List κ} (hnd : ks.Nodup) (h : ∀ k ∈ ks, t.contains k = true) :
    ks.length ≤ t.size := by
  rw [← length_keys]
  exact hnd.length_le_of_subset fun k hk => mem_keys.2 (h k hk)

variable [Std.TransOrd κ]

/-! ## Changes -/

theorem get?_insert_self : (t.insert k v).get? k = some v := by
  rw [get?_insert, if_pos rfl]

theorem get?_insert_of_ne (h : k' ≠ k) : (t.insert k v).get? k' = t.get? k' := by
  rw [get?_insert, if_neg h]

theorem contains_insert :
    (t.insert k v).contains k' = true ↔ k' = k ∨ t.contains k' = true := by
  simp only [contains, get?_insert]
  split <;> simp_all

theorem contains_erase :
    (t.erase k).contains k' = true ↔ k' ≠ k ∧ t.contains k' = true := by
  simp only [contains, get?_erase]
  split <;> simp_all

omit [DecidableEq κ] in
/-- A table without values is known by its keys. -/
theorem ext_contains {t u : Table κ Unit} (h : ∀ k, t.contains k = true ↔ u.contains k = true) :
    t = u := by
  refine ext fun k => ?_
  have hkey := h k
  simp only [contains] at hkey
  cases ht : t.get? k <;> cases hu : u.get? k <;> simp_all

/-- What is set last is what counts. -/
theorem insert_insert (v' : α) : (t.insert k v).insert k v' = t.insert k v' := by
  refine ext fun i => ?_
  simp only [get?_insert]
  split <;> rfl

/-- A key that comes and goes leaves nothing behind. -/
theorem erase_insert (h : t.contains k = false) : (t.insert k v).erase k = t := by
  refine ext fun i => ?_
  rw [get?_erase, get?_insert]
  by_cases hi : i = k
  · rw [if_pos hi, hi, contains_eq_false.1 h]
  · rw [if_neg hi, if_neg hi]

theorem get?_foldl_erase (ks : List κ) (t : Table κ α) (k : κ) :
    (ks.foldl (fun t k => t.erase k) t).get? k = if k ∈ ks then none else t.get? k := by
  induction ks generalizing t with
  | nil => simp
  | cons k' ks ih =>
    rw [List.foldl_cons, ih, get?_erase]
    by_cases h : k = k' <;> simp [h]

theorem contains_foldl_insert (ks : List κ) (v : α) (t : Table κ α) (k : κ) :
    (ks.foldl (fun t k => t.insert k v) t).contains k = true ↔ k ∈ ks ∨ t.contains k = true := by
  induction ks generalizing t with
  | nil => simp
  | cons k' ks ih =>
    rw [List.foldl_cons, ih, contains_insert, List.mem_cons, or_left_comm, or_assoc]

end Order

/-! ## Counting values -/

theorem countP_values_le (t : Table κ α) (p : α → Bool) : t.values.countP p ≤ t.size := by
  rw [values, size, ← List.length_map (f := Prod.snd)]
  exact List.countP_le_length

theorem countP_put (k : κ) (v : α) (p : α → Bool) (es : List (κ × α)) :
    ((put k v es).map (·.2)).countP p ≤ (es.map (·.2)).countP p + 1 := by
  induction es with
  | nil =>
    rw [put, List.map_cons, List.countP_cons]
    split <;> simp
  | cons e es ih =>
    obtain ⟨k', v'⟩ := e
    rw [put]
    split
    · rw [List.map_cons, List.countP_cons]
      split <;> omega
    · rw [List.map_cons, List.map_cons, List.countP_cons, List.countP_cons]
      split <;> omega
    · rw [List.map_cons, List.map_cons, List.countP_cons, List.countP_cons]
      omega

/-- A key that is set brings in one value at most. -/
theorem countP_values_insert [Std.TransOrd κ] (t : Table κ α) (k : κ) (v : α) (p : α → Bool) :
    (t.insert k v).values.countP p ≤ t.values.countP p + 1 :=
  countP_put k v p t.entries

theorem countP_values_erase (t : Table κ α) (k : κ) (p : α → Bool) :
    (t.erase k).values.countP p ≤ t.values.countP p :=
  List.Sublist.countP_le (List.filter_sublist.map _)

end OrgForest.Table
