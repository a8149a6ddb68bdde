import Mathlib.Data.List.Nodup
import OrgForest.Organization.Basic

/-!
# Single attributes

Attributes stand in a list, in the order in which their keys came. A value is put in the place of
the one that its key has there already, and behind all others if the key is new; of the attributes
that share a key only the first is ever seen.

* `Organization.attribute?_setAttribute`, `Organization.attribute?_removeAttribute_of_ne` — what is
  seen of a key;
* `Organization.putAttribute_putAttribute`, `Organization.putAttribute_comm` — two values, for one
  key or for two;
* `Organization.putAttribute_eq_map`, `Organization.dropAttribute_eq_filter` — lists in which no key
  comes twice.
-/

namespace OrgForest.Organization

variable {key key' value value' : String} {as : List Attribute} {o : Organization}

/-! ## What is seen of a key -/

theorem attribute?_eq_none : o.attribute? key = none ↔ key ∉ o.attributes.map (·.key) := by
  simp [attribute?]

theorem find?_putAttribute (key value key' : String) (as : List Attribute) :
    (putAttribute key value as).find? (·.key == key') =
      if key = key' then some ⟨key, value⟩ else as.find? (·.key == key') := by
  -- on the list, which is left alone behind the place of the key
  induction as with
  | nil => by_cases hkey : key = key' <;> simp [putAttribute, hkey]
  | cons a as ih =>
    rw [putAttribute]
    by_cases hplace : a.key = key
    · -- the place of the key, which is where it is looked for as well
      by_cases hkey : key = key'
      · simp [hplace, hkey]
      · simp [hplace, hkey]
    · rw [if_neg hplace, List.find?_cons, ih, List.find?_cons]
      by_cases hkey : key = key'
      · have hother : (a.key == key) = false := beq_eq_false_iff_ne.2 hplace
        simp [← hkey, hother]
      · simp [hkey]

theorem attribute?_setAttribute (key value key' : String) (o : Organization) :
    (o.setAttribute key value).attribute? key' =
      if key = key' then some value else o.attribute? key' := by
  rw [attribute?, setAttribute, find?_putAttribute]
  split <;> rfl

theorem attribute?_removeAttribute_of_ne (hne : key' ≠ key) :
    (o.removeAttribute key).attribute? key' = o.attribute? key' := by
  rw [attribute?, removeAttribute, attribute?]
  induction o.attributes with
  | nil => rfl
  | cons a as ih =>
    rw [dropAttribute]
    by_cases hplace : a.key = key
    · -- what is dropped has another key than the one that is looked for
      simp [hplace, hne.symm]
    · rw [if_neg hplace, List.find?_cons, List.find?_cons]
      split
      · rfl
      · exact ih

/-! ## The keys -/

theorem keys_putAttribute (key value : String) (as : List Attribute) :
    (putAttribute key value as).map (·.key) =
      if key ∈ as.map (·.key) then as.map (·.key) else as.map (·.key) ++ [key] := by
  induction as with
  | nil => rfl
  | cons a as ih =>
    rw [putAttribute]
    by_cases hkey : a.key = key
    · simp [hkey]
    · rw [if_neg hkey, List.map_cons, ih]
      have hne : ¬ key = a.key := fun h => hkey h.symm
      split <;> simp_all

theorem keys_dropAttribute (key : String) (as : List Attribute) :
    (dropAttribute key as).map (·.key) = (as.map (·.key)).erase key := by
  induction as with
  | nil => rfl
  | cons a as ih =>
    rw [dropAttribute, List.map_cons, List.erase_cons]
    by_cases hkey : a.key = key
    · simp [hkey]
    · simp [hkey, ih]

/-! ## Two values -/

/-- Of two values that are put under one key the last one stays. -/
theorem putAttribute_putAttribute (key value value' : String) (as : List Attribute) :
    putAttribute key value (putAttribute key value' as) = putAttribute key value as := by
  induction as with
  | nil => simp [putAttribute]
  | cons a as ih =>
    by_cases hplace : a.key = key
    · simp [putAttribute, hplace]
    · simp [putAttribute, hplace, ih]

/-- Values of two keys may be put in either order, unless both keys are new. -/
theorem putAttribute_comm (hne : key ≠ key') (hkey : key ∈ as.map (·.key)) :
    putAttribute key value (putAttribute key' value' as) =
      putAttribute key' value' (putAttribute key value as) := by
  induction as with
  | nil => simp at hkey
  | cons a as ih =>
    -- once one of the keys has met its place, both sides do the same to the rest
    by_cases hplace : a.key = key
    · simp [putAttribute, hplace, hne]
    · have hrest : key ∈ as.map (·.key) := by simpa [Ne.symm hplace] using hkey
      by_cases hplace' : a.key = key'
      · simp [putAttribute, hplace', hne.symm]
      · simp [putAttribute, hplace, hplace', ih hrest]

/-! ## Lists in which no key comes twice -/

/-- The key of the first attribute is that of no other. -/
theorem key_ne_of_nodup {a : Attribute} (hdistinct : ((a :: as).map (·.key)).Nodup) :
    ∀ b ∈ as, b.key ≠ a.key := by
  rw [List.map_cons, List.nodup_cons] at hdistinct
  intro b hb heq
  exact hdistinct.1 (heq ▸ List.mem_map_of_mem hb)

theorem putAttribute_eq_map (hdistinct : (as.map (·.key)).Nodup) (hkey : key ∈ as.map (·.key)) :
    putAttribute key value as = as.map fun a => if a.key = key then ⟨key, value⟩ else a := by
  induction as with
  | nil => simp at hkey
  | cons a as ih =>
    have hothers : ∀ b ∈ as, b.key ≠ a.key := key_ne_of_nodup hdistinct
    rw [List.map_cons, List.nodup_cons] at hdistinct
    rw [putAttribute, List.map_cons]
    by_cases hplace : a.key = key
    · -- the key has its place, so the rest stays as it is
      subst hplace
      have hrest : ∀ b ∈ as, (if b.key = a.key then ⟨a.key, value⟩ else b) = b := by
        intro b hb
        rw [if_neg (hothers b hb)]
      rw [if_pos rfl, if_pos rfl, List.map_congr_left hrest, List.map_id']
    · have hlater : key ∈ as.map (·.key) := by simpa [Ne.symm hplace] using hkey
      rw [if_neg hplace, if_neg hplace, ih hdistinct.2 hlater]

theorem dropAttribute_eq_filter (hdistinct : (as.map (·.key)).Nodup) :
    dropAttribute key as = as.filter (·.key ≠ key) := by
  induction as with
  | nil => rfl
  | cons a as ih =>
    have hothers : ∀ b ∈ as, b.key ≠ a.key := key_ne_of_nodup hdistinct
    rw [List.map_cons, List.nodup_cons] at hdistinct
    rw [dropAttribute]
    by_cases hplace : a.key = key
    · subst hplace
      have hrest : ∀ b ∈ as, decide (b.key ≠ a.key) = true := by
        intro b hb
        exact decide_eq_true (hothers b hb)
      rw [if_pos rfl, List.filter_cons_of_neg (by simp), List.filter_eq_self.2 hrest]
    · rw [if_neg hplace, List.filter_cons_of_pos (by simp [hplace]), ih hdistinct.2]

end OrgForest.Organization
