/-!
# Tables

A table maps keys to values. Its entries stand in the order of their keys, each key once, so two
tables with the same content are the same table.

* `Table.get?_insert`, `Table.get?_erase` — what the operations do to look-ups;
* `Table.ext` — a table is determined by its look-ups.
-/

namespace OrgForest

/-- Entries in strictly ascending order of their keys. -/
structure Table (κ α : Type) [Ord κ] where
  entries : List (κ × α)
  sorted : entries.Pairwise fun a b => compare a.1 b.1 = .lt
deriving DecidableEq

namespace Table

variable {κ α : Type} [Ord κ]

/-! ## Lists of entries -/

/-- The value of a key. -/
def find (k : κ) : List (κ × α) → Option α
  | [] => none
  | (k', v) :: es => if compare k k' = .eq then some v else find k es

/-- Puts an entry at its place, over an older one of the same key. -/
def put (k : κ) (v : α) : List (κ × α) → List (κ × α)
  | [] => [(k, v)]
  | (k', v') :: es =>
    match compare k k' with
    | .lt => (k, v) :: (k', v') :: es
    | .eq => (k, v) :: es
    | .gt => (k', v') :: put k v es

/-- Drops the entry of a key. -/
def drop (k : κ) (es : List (κ × α)) : List (κ × α) := es.filter fun e => compare k e.1 != .eq

theorem mem_put {k : κ} {v : α} {e : κ × α} {es : List (κ × α)} (h : e ∈ put k v es) :
    e = (k, v) ∨ e ∈ es := by
  induction es with
  | nil => simpa [put] using h
  | cons e' es ih =>
    obtain ⟨k', v'⟩ := e'
    simp only [put] at h
    split at h <;> grind

theorem sorted_put [Std.TransOrd κ] {k : κ} {v : α} {es : List (κ × α)}
    (h : es.Pairwise fun a b => compare a.1 b.1 = .lt) :
    (put k v es).Pairwise fun a b => compare a.1 b.1 = .lt := by
  induction es with
  | nil => simp [put]
  | cons e es ih =>
    obtain ⟨k', v'⟩ := e
    obtain ⟨hfst, hrest⟩ := List.pairwise_cons.1 h
    simp only [put]
    split
    · next hlt =>
      refine List.pairwise_cons.2 ⟨fun e he => ?_, h⟩
      rcases List.mem_cons.1 he with rfl | he
      · exact hlt
      · exact Std.TransCmp.lt_trans hlt (hfst e he)
    · next heq =>
      refine List.pairwise_cons.2 ⟨fun e he => ?_, hrest⟩
      exact Std.TransCmp.lt_of_eq_of_lt heq (hfst e he)
    · next hgt =>
      refine List.pairwise_cons.2 ⟨fun e he => ?_, ih hrest⟩
      rcases mem_put he with rfl | he
      · exact Std.OrientedCmp.lt_of_gt hgt
      · exact hfst e he

/-! ## Tables -/

/-- The table without entries. -/
def empty : Table κ α := ⟨[], .nil⟩

instance : Inhabited (Table κ α) := ⟨empty⟩

/-- The value of a key. -/
def get? (t : Table κ α) (k : κ) : Option α := find k t.entries

/-- Whether a key has a value. -/
def contains (t : Table κ α) (k : κ) : Bool := (t.get? k).isSome

/-- The table with a key set to a value. -/
def insert [Std.TransOrd κ] (t : Table κ α) (k : κ) (v : α) : Table κ α :=
  ⟨put k v t.entries, sorted_put t.sorted⟩

/-- The table without a key. -/
def erase (t : Table κ α) (k : κ) : Table κ α := ⟨drop k t.entries, t.sorted.filter _⟩

/-- The number of entries. -/
def size (t : Table κ α) : Nat := t.entries.length

/-- Whether there is no entry. -/
def isEmpty (t : Table κ α) : Bool := t.entries.isEmpty

/-- The keys in order. -/
def keys (t : Table κ α) : List κ := t.entries.map (·.1)

/-- The values in the order of their keys. -/
def values (t : Table κ α) : List α := t.entries.map (·.2)

/-! ## Look-ups -/

theorem find_put [Std.TransOrd κ] [Std.LawfulEqOrd κ] [DecidableEq κ] (k k' : κ) (v : α)
    (es : List (κ × α)) : find k' (put k v es) = if k' = k then some v else find k' es := by
  induction es with
  | nil => simp [put, find]
  | cons e es ih =>
    obtain ⟨k₁, v₁⟩ := e
    simp only [put]
    split
    · simp [find]
    · next heq =>
      obtain rfl := Std.LawfulEqOrd.eq_of_compare heq
      by_cases h : k' = k <;> simp [find, h]
    · next hgt =>
      have hne : k ≠ k₁ := by rintro rfl; simp [Std.ReflOrd.compare_self] at hgt
      by_cases h : k' = k₁
      · subst h
        simp [find, hne.symm]
      · simp [find, h, ih]

@[simp] theorem get?_empty (k : κ) : (empty : Table κ α).get? k = none := rfl

theorem get?_insert [Std.TransOrd κ] [Std.LawfulEqOrd κ] [DecidableEq κ] (t : Table κ α)
    (k k' : κ) (v : α) : (t.insert k v).get? k' = if k' = k then some v else t.get? k' :=
  find_put k k' v t.entries

theorem find_drop [Std.TransOrd κ] [Std.LawfulEqOrd κ] [DecidableEq κ] (k k' : κ)
    (es : List (κ × α)) : find k' (drop k es) = if k' = k then none else find k' es := by
  induction es with
  | nil => simp [drop, find]
  | cons e es ih =>
    obtain ⟨k₁, v₁⟩ := e
    simp only [drop] at ih
    by_cases h : k = k₁
    · subst h
      by_cases h' : k' = k
      · subst h'
        simpa [drop] using ih
      · simp [drop, find, ih, h']
    · by_cases h' : k' = k₁
      · subst h'
        simp [drop, find, h, Ne.symm h]
      · simp [drop, find, h, h', ih]

theorem get?_erase [Std.TransOrd κ] [Std.LawfulEqOrd κ] [DecidableEq κ] (t : Table κ α)
    (k k' : κ) : (t.erase k).get? k' = if k' = k then none else t.get? k' :=
  find_drop k k' t.entries

theorem find_eq_none [Std.TransOrd κ] {k : κ} {es : List (κ × α)}
    (h : ∀ e ∈ es, compare k e.1 = .lt) : find k es = none := by
  induction es with
  | nil => rfl
  | cons e es ih =>
    have := h e (by simp)
    simp only [find, this]
    exact ih fun e he => h e (by simp [he])

theorem entries_ext [Std.TransOrd κ] [Std.LawfulEqOrd κ] {es fs : List (κ × α)}
    (hes : es.Pairwise fun a b => compare a.1 b.1 = .lt)
    (hfs : fs.Pairwise fun a b => compare a.1 b.1 = .lt)
    (h : ∀ k, find k es = find k fs) : es = fs := by
  induction es generalizing fs with
  | nil =>
    cases fs with
    | nil => rfl
    | cons f fs => have := h f.1; simp [find, Std.ReflOrd.compare_self] at this
  | cons e es ih =>
    obtain ⟨hlt, hes'⟩ := List.pairwise_cons.1 hes
    cases fs with
    | nil => have := h e.1; simp [find, Std.ReflOrd.compare_self] at this
    | cons f fs =>
      obtain ⟨hlt', hfs'⟩ := List.pairwise_cons.1 hfs
      have hkey : compare e.1 f.1 = .eq := by
        rcases hc : compare e.1 f.1 with _ | _ | _
        · have := h e.1
          have hnone : find e.1 (f :: fs) = none := find_eq_none fun x hx => by
            rcases List.mem_cons.1 hx with rfl | hx
            · exact hc
            · exact Std.TransCmp.lt_trans hc (hlt' x hx)
          rw [hnone] at this
          simp [find, Std.ReflOrd.compare_self] at this
        · rfl
        · have hc' := Std.OrientedCmp.lt_of_gt hc
          have := h f.1
          have hnone : find f.1 (e :: es) = none := find_eq_none fun x hx => by
            rcases List.mem_cons.1 hx with rfl | hx
            · exact hc'
            · exact Std.TransCmp.lt_trans hc' (hlt x hx)
          rw [hnone] at this
          simp [find, Std.ReflOrd.compare_self] at this
      obtain ⟨k, v⟩ := e
      obtain ⟨k', v'⟩ := f
      obtain rfl : k = k' := Std.LawfulEqOrd.eq_of_compare hkey
      have hv : v = v' := by simpa [find, Std.ReflOrd.compare_self] using h k
      subst hv
      rw [ih hes' hfs' fun x => ?_]
      by_cases hx : x = k
      · subst hx
        rw [find_eq_none hlt, find_eq_none hlt']
      · simpa [find, hx] using h x

/-- A table is determined by its look-ups. -/
theorem ext [Std.TransOrd κ] [Std.LawfulEqOrd κ] {t u : Table κ α}
    (h : ∀ k, t.get? k = u.get? k) : t = u := by
  obtain ⟨es, hes⟩ := t
  obtain ⟨fs, hfs⟩ := u
  obtain rfl : es = fs := entries_ext hes hfs h
  rfl

end Table

end OrgForest
