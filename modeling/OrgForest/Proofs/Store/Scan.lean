import OrgForest.Proofs.Listing.Order
import OrgForest.Proofs.Store.Scope

/-!
# What a scan finds

The organizations of a scope that pass a filter make a listing: the strictly sorted list of them. It
is determined by what the scope covers, whichever table the scope is read from. A scan gives the
first organizations of the listing that lie past its position.

* `Store.Lists` — the listing of a scope and a filter;
* `Store.Consistent.exists_lists` — there is one;
* `Store.Consistent.scan_lists`, `Store.Consistent.scan_whole` — a scan is a part of it, or all.
-/

namespace OrgForest

namespace SortOrder

/-- Whether an organization lies past a position, if one is given. -/
def Past (key : SortKey) (order : SortOrder) (p : Option Position) (o : Organization) : Bool :=
  p.all fun p => decide (order.Lt p (.of key o))

/-- A position lies strictly past another, if one is given. -/
def Beyond (order : SortOrder) (q : Option Position) (p : Position) : Prop :=
  ∀ q', q = some q' → order.Lt q' p

variable {key : SortKey} {order : SortOrder} {origin : Option Position} {p q : Position}
  {o : Organization}

theorem past_iff : order.Past key origin o = true ↔ order.Beyond origin (.of key o) := by
  cases origin with
  | none => simp [Past, Beyond]
  | some q => simp [Past, Beyond]

theorem Beyond.trans (hq : order.Beyond origin q) (hp : order.Lt q p) : order.Beyond origin p :=
  fun start hstart => lt_trans (hq start hstart) hp

/-- What lies past a position lies past those before it. -/
theorem past_of_past (hq : order.Beyond origin q) (ho : order.Past key (some q) o = true) :
    order.Past key origin o = true :=
  past_iff.2 (hq.trans (past_iff.1 ho q rfl))

theorem past_self : order.Past key (some (.of key o)) o = false := by
  rw [← Bool.not_eq_true, past_iff]
  intro h
  exact lt_irrefl (h _ rfl)

end SortOrder

/-- What lies past the last of some that were taken off the front is what they have left over. None
taken leave all over, and so does an end that has been reached. -/
theorem Sorted.filter_past_taken {key : SortKey} {order : SortOrder} {os : List Organization}
    (h : Sorted key order os) (p : Option Position) (n : Nat) :
    let rest := os.filter (order.Past key p)
    os.filter (order.Past key (((rest.take n).getLast?.map (Position.of key)).or p)) =
      rest.drop n := by
  intro rest
  cases hlast : (rest.take n).getLast? with
  | none =>
    show rest = rest.drop n
    rcases List.take_eq_nil_iff.1 (List.getLast?_eq_none_iff.1 hlast) with hn | hend
    · rw [hn, List.drop_zero]
    · rw [hend, List.drop_nil]
  | some o =>
    obtain ⟨front, hfront⟩ := List.getLast?_eq_some_iff.1 hlast
    have hcut : rest = front ++ o :: rest.drop n := by
      rw [← List.singleton_append, ← List.append_assoc, ← hfront, List.take_append_drop]
    -- what lies past the last of them lies past the position as well
    have ho : o ∈ rest := List.mem_of_mem_take (List.mem_of_getLast? hlast)
    have hbeyond : order.Beyond p (.of key o) := SortOrder.past_iff.1 (List.mem_filter.1 ho).2
    have hpast : ∀ x, (order.Past key (some (.of key o)) x && order.Past key p x) =
        order.Past key (some (.of key o)) x := by
      intro x
      rw [Bool.and_eq_left_iff_imp]
      exact SortOrder.past_of_past hbeyond
    have hsorted : Sorted key order rest := h.filter _
    rw [hcut] at hsorted
    have hrest := hsorted.filter_past
    rw [← hcut, List.filter_filter] at hrest
    rw [← hrest]
    refine List.filter_congr fun x _ => ?_
    exact (hpast x).symm

namespace Store

/-- The listing of a scope and a filter: all that is covered and passes, strictly sorted. -/
structure Lists (s : Store) (scope : Scope) (passes : Organization → Bool) (key : SortKey)
    (order : SortOrder) (os : List Organization) : Prop where
  sorted : Sorted key order os
  mem_iff : ∀ o, o ∈ os ↔ scope.Covers s o ∧ passes o = true

variable {s : Store} {scope : Scope} {passes : Organization → Bool} {key : SortKey}
  {order : SortOrder} {os os' : List Organization}

theorem Lists.unique (h : s.Lists scope passes key order os)
    (h' : s.Lists scope passes key order os') : os = os' :=
  h.sorted.ext h'.sorted fun o => by rw [h.mem_iff, h'.mem_iff]

/-- Fewer that pass make a part of the listing. -/
theorem Lists.filter (h : s.Lists scope passes key order os) (p : Organization → Bool) :
    s.Lists scope (fun o => passes o && p o) key order (os.filter p) where
  sorted := h.sorted.filter p
  mem_iff o := by rw [List.mem_filter, h.mem_iff, Bool.and_eq_true, and_assoc]

/-- The listing in the other direction. -/
theorem Lists.reverse (h : s.Lists scope passes key order os) :
    s.Lists scope passes key order.reverse os.reverse where
  sorted := h.sorted.reverse
  mem_iff o := by rw [List.mem_reverse, h.mem_iff]

theorem Lists.nodup_ids (h : s.Lists scope passes key order os) : (os.map (·.id)).Nodup := by
  rw [List.Nodup, List.pairwise_map]
  refine h.sorted.imp_of_mem fun {a b} ha hb hlt heq => ?_
  -- two records with one id are one record
  have hheldA : s.organizations.get? a.id = some a := ((h.mem_iff a).1 ha).1.holds
  have hheldB : s.organizations.get? b.id = some b := ((h.mem_iff b).1 hb).1.holds
  rw [heq, hheldB, Option.some_inj] at hheldA
  subst hheldA
  exact SortOrder.lt_irrefl hlt

/-- A listing holds no more organizations than the store. -/
theorem Lists.length_le_size (h : s.Lists scope passes key order os) :
    os.length ≤ s.organizations.size := by
  rw [← List.length_map (f := (·.id))]
  refine Table.length_le_size h.nodup_ids fun id hid => ?_
  obtain ⟨o, ho, rfl⟩ := List.mem_map.1 hid
  exact Table.contains_of_get? ((h.mem_iff o).1 ho).1.holds

namespace Consistent

/-- A listing is found by sorting what the scope gives. -/
theorem lists_mergeSort (h : s.Consistent) {found : List Organization}
    (hfound : s.inScope scope = .ok found) (passes : Organization → Bool) :
    s.Lists scope passes key order ((found.filter passes).mergeSort fun a b =>
      (Organization.compareIn key order a b).isLE) := by
  obtain ⟨found', hfound', hids, hcovers⟩ := h.inScope_covers scope
  obtain rfl : found = found' := Except.ok.inj (hfound.symm.trans hfound')
  refine ⟨Sorted.mergeSort (hids.sublist (List.filter_sublist.map _)), fun o => ?_⟩
  rw [List.mem_mergeSort, List.mem_filter, hcovers]

theorem exists_lists (h : s.Consistent) (scope : Scope) (passes : Organization → Bool)
    (key : SortKey) (order : SortOrder) : ∃ os, s.Lists scope passes key order os := by
  obtain ⟨found, hfound, -, -⟩ := h.inScope_covers scope
  exact ⟨_, h.lists_mergeSort hfound passes⟩

/-- A scan gives the first organizations of the listing past its position. -/
theorem scan_lists (h : s.Consistent) (r : Scan)
    (hlists : s.Lists r.scope (fun o => r.filter.all (·.holds o)) r.key r.order os) :
    s.scan r = .ok ((os.filter (r.order.Past r.key r.after)).take r.limit) := by
  obtain ⟨found, hfound, -, -⟩ := h.inScope_covers r.scope
  have hwanted : s.Lists r.scope r.wants r.key r.order
      ((found.filter r.wants).mergeSort r.inOrder) := h.lists_mergeSort hfound r.wants
  have hpart : s.Lists r.scope r.wants r.key r.order
      (os.filter (r.order.Past r.key r.after)) := by
    refine ⟨hlists.sorted.filter _, fun o => ?_⟩
    have hpast : (r.after.all fun p => o.standsPast p r.key r.order) =
        r.order.Past r.key r.after o := by
      cases r.after <;> rfl
    rw [List.mem_filter, hlists.mem_iff, Scan.wants, hpast, Bool.and_comm, Bool.and_eq_true,
      and_assoc]
  unfold scan
  split
  · next hnone => rw [hnone, List.take_zero]
  · rw [hfound]
    show Except.ok (((found.filter r.wants).mergeSort r.inOrder).take r.limit) = _
    rw [← hpart.unique hwanted]

/-- A scan that has no filter and no position, and room for all records, gives the whole listing. -/
theorem scan_whole (h : s.Consistent) {n : Nat} (hn : s.organizations.size ≤ n)
    (hlists : s.Lists scope (fun _ => true) key order os) :
    s.scan ⟨scope, none, key, order, none, n⟩ = .ok os := by
  have hall : os.filter (order.Past key none) = os := List.filter_eq_self.2 fun _ _ => rfl
  rw [h.scan_lists _ hlists]
  dsimp only
  rw [hall, List.take_of_length_le (Nat.le_trans hlists.length_le_size hn)]

end Consistent

end Store

end OrgForest
