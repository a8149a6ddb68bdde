import OrgForest.Proofs.Store.Scan

/-!
# Scans in batches

Two organizations of different ids always have an order, so the result of a scan does not depend on
the order in which the table of the organizations gives its records, and a scan can be taken apart:
scans one after the other, each from the last organization of those before, give what a single scan
of their limits together gives.

* `Organization.Ranked` — a comparison that orders organizations of different ids strictly;
* `Store.scanFrom`, `Store.Consistent.scanFrom_eq` — a scan over records in any order;
* `Store.scanBatches`, `Store.Consistent.scanBatches_lists` — scans one after the other;
* `Store.scans_in_order` — all of it, for every store.
-/

namespace OrgForest

/-! ## The order of organizations -/

namespace Organization

/-- The comparison of a listing is a strict order, and a total one between different ids. -/
structure Ranked (key : SortKey) (order : SortOrder) : Prop where
  irrefl : ∀ a, compareIn key order a a ≠ .lt
  trans : ∀ a b c, compareIn key order a b = .lt → compareIn key order b c = .lt →
    compareIn key order a c = .lt
  total : ∀ a b, a.id ≠ b.id → compareIn key order a b = .lt ∨ compareIn key order b a = .lt

theorem ranked (key : SortKey) (order : SortOrder) : Ranked key order where
  irrefl _ := SortOrder.lt_irrefl
  trans _ _ _ hab hbc := SortOrder.lt_trans hab hbc
  total a b hids := by
    have hne : Position.of key a ≠ Position.of key b := by
      intro heq
      have hid := congrArg Position.id heq
      rw [Position.of_id, Position.of_id] at hid
      exact hids hid
    exact SortOrder.lt_or_lt hne

/-- In the other direction the two are exchanged. -/
theorem compareIn_reverse (key : SortKey) (order : SortOrder) (a b : Organization) :
    compareIn key order.reverse a b = compareIn key order b a := by
  unfold compareIn
  rw [Std.OrientedOrd.eq_swap (a := Position.of key b)]
  cases order with
  | ascending => rfl
  | descending => exact Ordering.swap_swap.symm

theorem standsPast_of_iff {key : SortKey} {order : SortOrder} {a b : Organization} :
    b.standsPast (.of key a) key order = true ↔ compareIn key order a b = .lt :=
  beq_iff_eq

end Organization

namespace Scan

/-- The request that goes on past the last organization of a batch. -/
def behind (r : Scan) (batch : List Organization) : Scan :=
  { r with after := (batch.getLast?.map (Position.of r.key)).or r.after }

end Scan

namespace Store

/-! ## Records in any order -/

/-- The organizations of a scope, where the table gives its records in some order. What stands below
an id is looked up record by record. -/
def inScopeFrom (s : Store) (rows : List Organization) :
    Scope → Except StoreError (List Organization)
  | .roots => .ok (rows.filter (·.isRoot))
  | .all => .ok rows
  | .childrenOf id => s.recordsOf (s.childIds id)
  | .descendantsOf id => s.recordsOf (s.idsBelow id)

/-- A scan, where the table gives its records in some order. -/
def scanFrom (s : Store) (rows : List Organization) (r : Scan) :
    Except StoreError (List Organization) :=
  if r.limit = 0 then .ok []
  else do
    let found ← s.inScopeFrom rows r.scope
    return ((found.filter r.wants).mergeSort r.inOrder).take r.limit

/-- Scans one after the other, each of a limit of its own and from the last organization of those
before. -/
def scanBatches (s : Store) (r : Scan) : List Nat → Except StoreError (List Organization)
  | [] => .ok []
  | n :: limits => do
    let batch ← s.scan { r with limit := n }
    let rest ← s.scanBatches (r.behind batch) limits
    return batch ++ rest

variable {s : Store} {rows os : List Organization}

/-- A scope gives the same records, in whatever order. -/
theorem inScopeFrom_perm (hrows : rows.Perm s.organizations.values) {scope : Scope}
    {found : List Organization} (hfound : s.inScope scope = .ok found) :
    ∃ found', s.inScopeFrom rows scope = .ok found' ∧ found'.Perm found := by
  cases scope with
  | roots =>
    obtain rfl := Except.ok.inj hfound
    exact ⟨_, rfl, hrows.filter _⟩
  | all =>
    obtain rfl := Except.ok.inj hfound
    exact ⟨_, rfl, hrows⟩
  | childrenOf id => exact ⟨found, hfound, .refl _⟩
  | descendantsOf id => exact ⟨found, hfound, .refl _⟩

namespace Consistent

theorem scanFrom_eq (h : s.Consistent) (hrows : rows.Perm s.organizations.values) (r : Scan) :
    s.scanFrom rows r = s.scan r := by
  obtain ⟨found, hfound, hids, -⟩ := h.inScope_covers r.scope
  obtain ⟨found', hfound', hperm⟩ := inScopeFrom_perm hrows hfound
  -- the ids are distinct in the one order as in the other, so either list can be sorted strictly
  have hwanted : (found'.filter r.wants).Perm (found.filter r.wants) := hperm.filter _
  have hsorted : Sorted r.key r.order ((found.filter r.wants).mergeSort r.inOrder) :=
    .mergeSort (hids.sublist (List.filter_sublist.map _))
  have hsorted' : Sorted r.key r.order ((found'.filter r.wants).mergeSort r.inOrder) :=
    .mergeSort (((hperm.map _).nodup_iff.2 hids).sublist (List.filter_sublist.map _))
  -- of the same members there is one strictly sorted list only
  have heq : (found'.filter r.wants).mergeSort r.inOrder =
      (found.filter r.wants).mergeSort r.inOrder := by
    refine hsorted'.ext hsorted fun o => ?_
    rw [List.mem_mergeSort, List.mem_mergeSort, hwanted.mem_iff]
  unfold scanFrom scan
  rw [hfound, hfound']
  show (if r.limit = 0 then _ else Except.ok (((found'.filter r.wants).mergeSort _).take _)) = _
  rw [heq]
  rfl

/-- Scans one after the other cut the listing off from the position on, up to all their limits. -/
theorem scanBatches_lists (h : s.Consistent) (limits : List Nat) {r : Scan}
    (hlists : s.Lists r.scope (fun o => r.filter.all (·.holds o)) r.key r.order os) :
    s.scanBatches r limits =
      .ok ((os.filter (r.order.Past r.key r.after)).take (limits.foldr (· + ·) 0)) := by
  -- on the scans to come: what lies past the position of the next is what this one leaves over
  induction limits generalizing r with
  | nil => rfl
  | cons n limits ih =>
    let rest := os.filter (r.order.Past r.key r.after)
    have hbatch : s.scan { r with limit := n } = .ok (rest.take n) :=
      h.scan_lists { r with limit := n } hlists
    have hlater : s.scanBatches (r.behind (rest.take n)) limits =
        .ok ((rest.drop n).take (limits.foldr (· + ·) 0)) := by
      rw [← hlists.sorted.filter_past_taken r.after n]
      exact ih (r := r.behind (rest.take n)) hlists
    rw [scanBatches, hbatch]
    show (s.scanBatches (r.behind (rest.take n)) limits).bind _ = _
    rw [hlater, List.foldr_cons, List.take_add]
    rfl

end Consistent

/-- **Scans come in one order, whole or in batches.** By every key and in either direction, the
comparison of organizations is a strict order that is total between different ids; the two
directions are the reverse of each other; and an organization stands past the position of another if
and only if the other comes strictly before it. So a scan gives the same organizations in whatever
order the table gives its records; and scans one after the other, each of them past the last
organization of those before, give together what a single scan of all their limits gives. -/
theorem scans_in_order (changes : List StoreChange) {rows : List Organization}
    (hrows : rows.Perm (after changes).organizations.values) (r : Scan) (limits : List Nat)
    (hsplit : limits.foldr (· + ·) 0 = r.limit) :
    Organization.Ranked r.key r.order ∧
    (∀ a b, Organization.compareIn r.key r.order.reverse a b =
      Organization.compareIn r.key r.order b a) ∧
    (∀ a b, b.standsPast (.of r.key a) r.key r.order = true ↔
      Organization.compareIn r.key r.order a b = .lt) ∧
    (after changes).scanFrom rows r = (after changes).scan r ∧
    ∃ found, (after changes).scan r = .ok found ∧
      (after changes).scanBatches r limits = .ok found := by
  have h : (after changes).Consistent := .after changes
  obtain ⟨os, hlists⟩ := h.exists_lists r.scope (fun o => r.filter.all (·.holds o)) r.key r.order
  refine ⟨Organization.ranked r.key r.order, Organization.compareIn_reverse r.key r.order,
    fun a b => Organization.standsPast_of_iff, h.scanFrom_eq hrows r, ?_⟩
  refine ⟨_, h.scan_lists r hlists, ?_⟩
  rw [h.scanBatches_lists limits hlists, hsplit]

/-- Three of one name and one moment, one of them below another, and one of another name. -/
def twins : List StoreChange := [
  .insert { Organization.new .epoch "Twin" with id := "b" } ⟨"b", "b.example", 1⟩,
  .insert { Organization.new .epoch "Twin" with id := "c", parentId := some "b" }
    ⟨"c", "c.example", 2⟩,
  .insert { Organization.new .epoch "Zed" with id := "d" } ⟨"d", "d.example", 3⟩,
  .insert { Organization.new .epoch "Twin" with id := "a" } ⟨"a", "a.example", 4⟩]

/-- The first three of all, the last names first. -/
def lastNames : Scan := ⟨.all, none, .name, .descending, none, 3⟩

/-- The first batch ends between two of one name. -/
theorem scans_in_order_twins :
    let s := after twins
    let rows := s.organizations.values.reverse
    rows.map (·.id) = ["d", "c", "b", "a"] ∧ s.scan lastNames = .ok (rows.take 3) ∧
      s.scanBatches lastNames [2, 0, 1] = .ok (rows.take 3) := by
  intro s rows
  obtain ⟨-, -, -, hrows, found, hfound, hbatches⟩ :=
    scans_in_order twins (List.reverse_perm _) lastNames [2, 0, 1] rfl
  have hall : rows.filter lastNames.wants = rows := by decide +kernel
  have hsorted : rows.mergeSort lastNames.inOrder = rows :=
    List.mergeSort_of_pairwise (by decide +kernel)
  have hread : s.scanFrom rows lastNames = .ok (rows.take 3) := by
    show Except.ok (((rows.filter lastNames.wants).mergeSort lastNames.inOrder).take 3) = _
    rw [hall, hsorted]
  obtain rfl : rows.take 3 = found := Except.ok.inj (hread.symm.trans (hrows.trans hfound))
  exact ⟨by decide +kernel, hfound, hbatches⟩

end Store

end OrgForest
