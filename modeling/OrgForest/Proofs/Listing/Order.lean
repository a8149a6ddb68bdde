import OrgForest.Listing.Position

/-!
# The order of positions

Positions are totally ordered, and a listing runs through them in this order or against it. A list
that is strictly sorted by position is known by its members alone, and it can be cut at any
position.

* `SortOrder.Lt` — one position strictly before another, in the direction of a listing;
* `Sorted`, `Sorted.ext` — lists that are sorted strictly, and that they are known by their members;
* `Sorted.filter_past` — what lies past a member is what comes behind it.
-/

namespace OrgForest

/-! ## Lawful comparisons -/

namespace SortValue

instance : Std.LawfulEqOrd SortValue where
  eq_of_compare {a b} h := by
    cases a <;> cases b
    · exact congrArg created (Std.LawfulEqOrd.eq_of_compare h)
    · cases h
    · cases h
    · exact congrArg name (Std.LawfulEqOrd.eq_of_compare h)
  compare_self {a} := by
    cases a with
    | created t => exact Std.ReflOrd.compare_self (α := Timestamp)
    | name n => exact Std.ReflOrd.compare_self (α := String)

instance : Std.TransOrd SortValue where
  eq_swap {a b} := by
    cases a <;> cases b
    · exact Std.OrientedOrd.eq_swap (α := Timestamp)
    · rfl
    · rfl
    · exact Std.OrientedOrd.eq_swap (α := String)
  isLE_trans {a b c} hab hbc := by
    -- a creation time is before every name, and of one kind the order is that of the values
    cases a with
    | created a =>
      cases c with
      | name c => rfl
      | created c =>
        cases b with
        | created b => exact Std.TransOrd.isLE_trans (α := Timestamp) hab hbc
        | name b => exact nomatch hbc
    | name a =>
      cases b with
      | created b => exact nomatch hab
      | name b =>
        cases c with
        | created c => exact nomatch hbc
        | name c => exact Std.TransOrd.isLE_trans (α := String) hab hbc

end SortValue

namespace Position

instance : Std.TransOrd Position :=
  inferInstanceAs (Std.TransCmp (compareLex (compareOn Position.value) (compareOn Position.id)))

instance : Std.LawfulEqOrd Position where
  eq_of_compare {p q} h := by
    obtain ⟨hvalue, hid⟩ := Ordering.then_eq_eq.1 h
    cases p
    cases q
    simp only [compareOn, Std.compare_eq_iff_eq] at hvalue hid
    subst hvalue hid
    rfl

@[simp] theorem of_id (key : SortKey) (o : Organization) : (of key o).id = o.id := by
  cases key <;> rfl

end Position

/-! ## Before and after -/

namespace SortOrder

/-- One position comes strictly before another in this direction. -/
def Lt (order : SortOrder) (p q : Position) : Prop := order.apply (compare p q) = .lt

instance (order : SortOrder) (p q : Position) : Decidable (order.Lt p q) :=
  inferInstanceAs (Decidable (_ = _))

variable {order : SortOrder} {p q r : Position}

/-- In the other direction what comes before comes after. -/
theorem lt_reverse : order.reverse.Lt p q ↔ order.Lt q p := by
  unfold Lt
  rw [Std.OrientedOrd.eq_swap (a := q)]
  cases order <;> cases compare p q <;> simp [reverse, apply]

theorem lt_ascending : ascending.Lt p q ↔ compare p q = .lt := Iff.rfl

theorem lt_descending : descending.Lt p q ↔ compare q p = .lt := by
  rw [← lt_ascending, ← lt_reverse]
  rfl

theorem lt_trans (h : order.Lt p q) (h' : order.Lt q r) : order.Lt p r := by
  cases order with
  | ascending =>
    rw [lt_ascending] at h h' ⊢
    exact Std.TransCmp.lt_trans h h'
  | descending =>
    rw [lt_descending] at h h' ⊢
    exact Std.TransCmp.lt_trans h' h

theorem lt_of_eq_or_lt (h : p = q ∨ order.Lt p q) (h' : order.Lt q r) : order.Lt p r := by
  rcases h with rfl | hlt
  · exact h'
  · exact lt_trans hlt h'

theorem lt_irrefl : ¬ order.Lt p p := by
  intro h
  have hself : compare p p = .eq := Std.ReflOrd.compare_self
  unfold Lt at h
  rw [hself] at h
  cases order <;> cases h

theorem lt_asymm (h : order.Lt p q) : ¬ order.Lt q p :=
  fun h' => lt_irrefl (lt_trans h h')

theorem ne_of_lt (h : order.Lt p q) : p ≠ q := by
  rintro rfl
  exact lt_irrefl h

/-- Any two positions that are not the same have an order. -/
theorem lt_or_lt (hne : p ≠ q) : order.Lt p q ∨ order.Lt q p := by
  have hcompare : compare p q ≠ .eq := fun h => hne (Std.LawfulEqOrd.eq_of_compare h)
  have hreverse : order.reverse.Lt p q ↔ order.Lt q p := lt_reverse
  rw [← hreverse]
  unfold Lt
  cases order <;> cases hpq : compare p q <;> simp_all [apply, reverse]

/-- To be not after is to be before or the same. -/
theorem isLE_apply : (order.apply (compare p q)).isLE = true ↔ order.Lt p q ∨ p = q := by
  constructor
  · intro h
    by_cases hne : p = q
    · exact .inr hne
    · refine .inl ((lt_or_lt hne).resolve_right fun hgt => ?_)
      rw [← lt_reverse] at hgt
      unfold Lt at hgt
      cases order <;> cases hpq : compare p q <;> simp_all [apply, reverse]
  · rintro (h | rfl)
    · unfold Lt at h
      rw [h]
      rfl
    · have hself : compare p p = .eq := Std.ReflOrd.compare_self
      rw [hself]
      cases order <;> rfl

end SortOrder

/-! ## Sorted lists -/

/-- A list of organizations, each strictly before those behind it. -/
def Sorted (key : SortKey) (order : SortOrder) (os : List Organization) : Prop :=
  os.Pairwise fun a b => order.Lt (Position.of key a) (Position.of key b)

namespace Sorted

variable {key : SortKey} {order : SortOrder} {os os' : List Organization}

/-- A sorted list is known by its members. -/
theorem ext (h : Sorted key order os) (h' : Sorted key order os') (hmem : ∀ o, o ∈ os ↔ o ∈ os') :
    os = os' := by
  have hne {a b : Organization} (hlt : order.Lt (.of key a) (.of key b)) : a ≠ b := by
    rintro rfl
    exact SortOrder.lt_irrefl hlt
  -- neither list has repeats, so the same members make them permutations of each other
  have hperm : os.Perm os' :=
    (List.perm_ext_iff_of_nodup (h.imp hne) (h'.imp hne)).2 hmem
  refine hperm.eq_of_pairwise (fun a b _ _ hlt hgt => ?_) h h'
  exact absurd hgt (SortOrder.lt_asymm hlt)

theorem filter (h : Sorted key order os) (p : Organization → Bool) :
    Sorted key order (os.filter p) :=
  List.Pairwise.filter p h

theorem reverse (h : Sorted key order os) : Sorted key order.reverse os.reverse := by
  rw [Sorted, List.pairwise_reverse]
  exact h.imp fun hlt => SortOrder.lt_reverse.2 hlt

/-- What lies past a member is what comes behind it. -/
theorem filter_past {front rest : List Organization} {o : Organization}
    (h : Sorted key order (front ++ o :: rest)) :
    (front ++ o :: rest).filter (fun x => order.Lt (.of key o) (.of key x)) = rest := by
  obtain ⟨-, hrest, hbefore⟩ := List.pairwise_append.1 h
  rw [List.filter_append, List.filter_cons_of_neg, List.filter_eq_nil_iff.2, List.filter_eq_self.2]
  · rfl
  · intro x hx
    exact decide_eq_true ((List.pairwise_cons.1 hrest).1 x hx)
  · intro x hx
    rw [decide_eq_true_eq]
    exact SortOrder.lt_asymm (hbefore x hx o (by simp))
  · rw [decide_eq_true_eq]
    exact SortOrder.lt_irrefl

/-- Sorting a list in which no id occurs twice makes it strictly sorted. -/
theorem mergeSort (hids : (os.map (·.id)).Nodup) :
    Sorted key order (os.mergeSort fun a b => (Organization.compareIn key order a b).isLE) := by
  have hle (a b : Organization) : (Organization.compareIn key order a b).isLE = true ↔
      order.Lt (.of key a) (.of key b) ∨ Position.of key a = Position.of key b :=
    SortOrder.isLE_apply
  have hsorted : (os.mergeSort fun a b => (Organization.compareIn key order a b).isLE).Pairwise
      fun a b => (Organization.compareIn key order a b).isLE = true :=
    List.pairwise_mergeSort (fun a b c hab hbc => ?_) (fun a b => ?_) os
  · -- equal positions are those of one id
    have hdistinct : (os.mergeSort fun a b =>
        (Organization.compareIn key order a b).isLE).Pairwise fun a b => a.id ≠ b.id := by
      have hperm := List.mergeSort_perm os fun a b => (Organization.compareIn key order a b).isLE
      exact List.pairwise_map.1 ((hperm.map Organization.id).nodup_iff.2 hids)
    refine (hsorted.and hdistinct).imp fun {a b} ⟨hab, hne⟩ => ?_
    refine ((hle a b).1 hab).resolve_right fun heq => hne ?_
    have hid := congrArg Position.id heq
    rwa [Position.of_id, Position.of_id] at hid
  · rw [hle] at hab hbc ⊢
    rcases hab with hab | hab
    · rcases hbc with hbc | hbc
      · exact .inl (SortOrder.lt_trans hab hbc)
      · exact .inl (hbc ▸ hab)
    · rw [hab]
      exact hbc
  · rw [Bool.or_eq_true, hle, hle]
    by_cases hne : Position.of key a = Position.of key b
    · exact .inl (.inr hne)
    · exact (SortOrder.lt_or_lt hne).imp .inl .inl

end Sorted

end OrgForest
