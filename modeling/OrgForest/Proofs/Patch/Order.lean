import Mathlib.Data.List.Induction
import OrgForest.Proofs.Patch.Spared

/-!
# The attributes after a patch

Operations put attributes one after the other, overwrite them and drop them, and what one of them
does may depend on all that came before it. Still, how the attributes stand in the end can be told
from the list as a whole. First come the keys that were there before and have not been dropped
since, in their order; then those that have been added since, in the order in which they were added.
A key that has been dropped and added again counts as added.

* `Patch.AddedAt`, `Patch.LastPut` — when a key was added, and what was put under it last;
* `Patch.KeyOrder` — the order of the keys;
* `Patch.Arranged`, `Patch.apply_arranged` — all that can be said of the result of a patch.
-/

namespace OrgForest

/-- The keys of the attributes, in their order. -/
def Organization.keys (o : Organization) : List String := o.attributes.map (·.key)

namespace Patch

variable {ops : List Operation} {o : Operation} {e : Edit} {org mid r : Organization}
  {key value : String} {turn : Nat}

/-! ## What a list of operations does to a key -/

/-- At its turn, which is counted from nought, an operation adds the key, and no later one drops
it. -/
def AddedAt (ops : List Operation) (org : Organization) (key : String) (turn : Nat) : Prop :=
  ∃ before o after mid value, ops = before ++ o :: after ∧ before.length = turn ∧
    apply before org = .ok mid ∧ key ∉ mid.keys ∧ o.Asks (.put key value) ∧
    ∀ later ∈ after, ¬ later.Asks (.drop key)

/-- An operation puts the value under the key, and no later one puts any. -/
def LastPut (ops : List Operation) (key value : String) : Prop :=
  ∃ before o after, ops = before ++ o :: after ∧ o.Asks (.put key value) ∧
    ∀ later ∈ after, ∀ value', ¬ later.Asks (.put key value')

theorem AddedAt.lt (h : AddedAt ops org key turn) : turn < ops.length := by
  obtain ⟨before, o, after, _, _, rfl, rfl, -⟩ := h
  rw [List.length_append, List.length_cons]
  omega

/-- With one more operation a key has been added before, and is not dropped now, or it is added
now. -/
theorem addedAt_concat (hmid : apply ops org = .ok mid) :
    AddedAt (ops ++ [o]) org key turn ↔
      AddedAt ops org key turn ∧ ¬ o.Asks (.drop key) ∨
        turn = ops.length ∧ key ∉ mid.keys ∧ ∃ value, o.Asks (.put key value) := by
  constructor
  · rintro ⟨before, o', after, mid', value, hsplit, hturn, hmid', hnew, hput, hlater⟩
    -- nothing comes after the turn, or the last operation does
    rcases List.eq_nil_or_concat after with rfl | ⟨after, last, rfl⟩
    · obtain ⟨rfl, hlast⟩ := List.append_inj' hsplit rfl
      obtain rfl : o = o' := List.singleton_inj.1 hlast
      obtain rfl : mid = mid' := Except.ok.inj (hmid.symm.trans hmid')
      exact .inr ⟨hturn.symm, hnew, value, hput⟩
    · rw [List.concat_eq_append] at hsplit hlater
      rw [← List.cons_append, ← List.append_assoc] at hsplit
      obtain ⟨rfl, hlast⟩ := List.append_inj' hsplit rfl
      obtain rfl : o = last := List.singleton_inj.1 hlast
      refine .inl ⟨⟨before, o', after, mid', value, rfl, hturn, hmid', hnew, hput, ?_⟩, ?_⟩
      · exact fun later hin => hlater later (List.mem_append_left _ hin)
      · exact hlater o (List.mem_append_right _ (List.mem_singleton_self o))
  · rintro (⟨⟨before, o', after, mid', value, rfl, hturn, hmid', hnew, hput, hlater⟩, hkept⟩ |
      ⟨rfl, hnew, value, hput⟩)
    · refine ⟨before, o', after ++ [o], mid', value, by simp, hturn, hmid', hnew, hput, ?_⟩
      intro later hin
      rcases List.mem_append.1 hin with hin | hin
      · exact hlater later hin
      · exact List.mem_singleton.1 hin ▸ hkept
    · exact ⟨ops, o, [], mid, value, rfl, rfl, hmid, hnew, hput, fun _ hin => absurd hin (by simp)⟩

theorem LastPut.concat (h : LastPut ops key value) (hother : ∀ value', ¬ o.Asks (.put key value')) :
    LastPut (ops ++ [o]) key value := by
  obtain ⟨before, o', after, rfl, hput, hlater⟩ := h
  refine ⟨before, o', after ++ [o], by simp, hput, fun later hin => ?_⟩
  rcases List.mem_append.1 hin with hin | hin
  · exact hlater later hin
  · exact List.mem_singleton.1 hin ▸ hother

theorem lastPut_of_asks (h : o.Asks (.put key value)) : LastPut (ops ++ [o]) key value :=
  ⟨ops, o, [], rfl, h, fun _ hin => absurd hin (by simp)⟩

/-! ## The order of the keys -/

/-- The keys after operations: those that were there before and have not been dropped, in their
order, and then those that have been added, in the order of their turns. -/
structure KeyOrder (ops : List Operation) (org : Organization) (keys kept : List String)
    (added : List (String × Nat)) : Prop where
  parts : keys = kept ++ added.map (·.1)
  sublist : kept.Sublist org.keys
  mem_kept : ∀ key, key ∈ kept ↔ key ∈ org.keys ∧ ∀ o ∈ ops, ¬ o.Asks (.drop key)
  ascending : added.Pairwise (·.2 < ·.2)
  mem_added : ∀ key turn, (key, turn) ∈ added ↔ AddedAt ops org key turn

namespace KeyOrder

variable {keys kept : List String} {added : List (String × Nat)}

theorem start (org : Organization) : KeyOrder [] org org.keys org.keys [] where
  parts := by simp
  sublist := List.Sublist.refl _
  mem_kept := by simp
  ascending := .nil
  mem_added key turn := by
    refine iff_of_false List.not_mem_nil ?_
    rintro ⟨before, o, after, _, _, hsplit, -⟩
    simp at hsplit

variable (hmid : apply ops org = .ok mid) (h : KeyOrder ops org mid.keys kept added)

include hmid h

/-- An operation that drops no key and adds none. -/
theorem kept_as_is (hdrop : ∀ key, ¬ o.Asks (.drop key))
    (hput : ∀ key value, o.Asks (.put key value) → key ∈ mid.keys) :
    KeyOrder (ops ++ [o]) org mid.keys kept added where
  parts := h.parts
  sublist := h.sublist
  mem_kept key := by
    rw [h.mem_kept, List.forall_mem_append, List.forall_mem_singleton]
    simp [hdrop key]
  ascending := h.ascending
  mem_added key turn := by
    rw [h.mem_added, addedAt_concat hmid]
    constructor
    · exact fun hadded => .inl ⟨hadded, hdrop key⟩
    · rintro (⟨hadded, -⟩ | ⟨-, hnew, value, hasks⟩)
      · exact hadded
      · exact absurd (hput key value hasks) hnew

/-- An operation that adds a key. -/
theorem grown (hasks : o.Asks (.put key value)) (hnew : key ∉ mid.keys) :
    KeyOrder (ops ++ [o]) org (mid.keys ++ [key]) kept (added ++ [(key, ops.length)]) where
  parts := by rw [h.parts]; simp
  sublist := h.sublist
  mem_kept key' := by
    rw [h.mem_kept, List.forall_mem_append, List.forall_mem_singleton]
    simp [hasks.iff]
  ascending := by
    refine List.pairwise_append.2 ⟨h.ascending, List.pairwise_singleton _ _, ?_⟩
    rintro ⟨key', turn⟩ hin _ hlast
    -- all turns so far are before this one
    rw [List.mem_singleton.1 hlast]
    exact ((h.mem_added key' turn).1 hin).lt
  mem_added key' turn := by
    have hdrop : ¬ o.Asks (.drop key') := by simp [hasks.iff]
    rw [List.mem_append, h.mem_added, addedAt_concat hmid, List.mem_singleton, Prod.mk.injEq]
    constructor
    · rintro (hadded | ⟨rfl, rfl⟩)
      · exact .inl ⟨hadded, hdrop⟩
      · exact .inr ⟨rfl, hnew, value, hasks⟩
    · rintro (⟨hadded, -⟩ | ⟨hturn, -, value', hasks'⟩)
      · exact .inl hadded
      · obtain ⟨rfl, -⟩ := Edit.put.inj (hasks'.unique hasks)
        exact .inr ⟨rfl, hturn⟩

/-- An operation that drops a key. -/
theorem shrunk (hasks : o.Asks (.drop key)) :
    KeyOrder (ops ++ [o]) org (mid.keys.filter (· ≠ key)) (kept.filter (· ≠ key))
      (added.filter (·.1 ≠ key)) where
  parts := by
    rw [h.parts, List.filter_append, List.filter_map]
    rfl
  sublist := List.filter_sublist.trans h.sublist
  mem_kept key' := by
    rw [List.mem_filter, h.mem_kept, List.forall_mem_append, List.forall_mem_singleton, hasks.iff,
      Edit.drop.injEq, decide_eq_true_iff, and_assoc]
  ascending := h.ascending.filter _
  mem_added key' turn := by
    rw [List.mem_filter, h.mem_added, addedAt_concat hmid, hasks.iff, Edit.drop.injEq,
      decide_eq_true_iff]
    -- what drops a key adds none
    refine (or_iff_left ?_).symm
    rintro ⟨-, -, value, hput⟩
    cases hput.unique hasks

end KeyOrder

/-! ## The attributes -/

/-- The key has the value that was put under it last, or that it had before if none was put. -/
def Valued (ops : List Operation) (org r : Organization) (key : String) : Prop :=
  ∃ value, r.attribute? key = some value ∧
    (LastPut ops key value ∨
      (∀ o ∈ ops, ∀ value', ¬ o.Asks (.put key value')) ∧ org.attribute? key = some value)

theorem Valued.concat (h : Valued ops org mid key) (hsame : r.attribute? key = mid.attribute? key)
    (hother : ∀ value, ¬ o.Asks (.put key value)) : Valued (ops ++ [o]) org r key := by
  -- what was put last is still what was put last, and what was never put is not put now
  obtain ⟨value, hvalue, hlast | ⟨hnone, hbefore⟩⟩ := h
  · exact ⟨value, hsame.trans hvalue, .inl (hlast.concat hother)⟩
  · refine ⟨value, hsame.trans hvalue, .inr ⟨?_, hbefore⟩⟩
    rw [List.forall_mem_append, List.forall_mem_singleton]
    exact ⟨hnone, hother⟩

/-- The attributes after operations: no key comes twice, each has its place, and each its value. -/
structure Arranged (ops : List Operation) (org r : Organization) : Prop where
  distinct : r.keys.Nodup
  order : ∃ kept added, KeyOrder ops org r.keys kept added
  valued : ∀ key ∈ r.keys, Valued ops org r key

namespace Arranged

theorem start (hdistinct : org.keys.Nodup) : Arranged [] org org.bare where
  distinct := hdistinct
  order := ⟨_, _, .start org⟩
  valued key hkey := by
    cases hvalue : org.attribute? key with
    | none => exact absurd hkey (Organization.attribute?_eq_none.1 hvalue)
    | some value => exact ⟨value, hvalue, .inr ⟨by simp, hvalue⟩⟩

variable (hmid : apply ops org = .ok mid) (h : Arranged ops org mid)

include hmid h

/-- An operation on something else. -/
theorem unmoved (hattributes : r.attributes = mid.attributes)
    (hdrop : ∀ key, ¬ o.Asks (.drop key)) (hput : ∀ key value, ¬ o.Asks (.put key value)) :
    Arranged (ops ++ [o]) org r := by
  have hkeys : r.keys = mid.keys := by
    rw [Organization.keys, hattributes, Organization.keys]
  have hsame (key : String) : r.attribute? key = mid.attribute? key := by
    rw [Organization.attribute?, hattributes, Organization.attribute?]
  obtain ⟨kept, added, horder⟩ := h.order
  constructor
  · exact hkeys ▸ h.distinct
  · rw [hkeys]
    exact ⟨kept, added, horder.kept_as_is hmid hdrop fun key value hasks => absurd hasks (hput _ _)⟩
  · intro key hkey
    exact (h.valued key (hkeys ▸ hkey)).concat (hsame key) (hput key)

theorem put (hasks : o.Asks (.put key value)) :
    Arranged (ops ++ [o]) org (mid.setAttribute key value) := by
  have hkeys : (mid.setAttribute key value).keys =
      if key ∈ mid.keys then mid.keys else mid.keys ++ [key] :=
    Organization.keys_putAttribute key value mid.attributes
  obtain ⟨kept, added, horder⟩ := h.order
  -- whether the key is new or not, it has got the value, and all others keep theirs
  have hvalued : ∀ key', key' = key ∨ key' ∈ mid.keys →
      Valued (ops ++ [o]) org (mid.setAttribute key value) key' := by
    intro key' hkey'
    by_cases hsame : key' = key
    · subst hsame
      refine ⟨value, ?_, .inl (lastPut_of_asks hasks)⟩
      rw [Organization.attribute?_setAttribute, if_pos rfl]
    · refine (h.valued key' (hkey'.resolve_left hsame)).concat ?_ fun value' hasks' => ?_
      · rw [Organization.attribute?_setAttribute, if_neg (Ne.symm hsame)]
      · exact hsame (Edit.put.inj (hasks'.unique hasks)).1
  by_cases hthere : key ∈ mid.keys
  · -- the value is overwritten in its place
    rw [if_pos hthere] at hkeys
    refine ⟨hkeys ▸ h.distinct, ⟨kept, added, ?_⟩, fun key' hkey' => hvalued key' (.inr ?_)⟩
    · rw [hkeys]
      refine horder.kept_as_is hmid (fun key' hdrop => nomatch hasks.unique hdrop) ?_
      intro key' value' hasks'
      rwa [(Edit.put.inj (hasks'.unique hasks)).1]
    · rwa [hkeys] at hkey'
  · -- the key comes behind all others
    rw [if_neg hthere] at hkeys
    refine ⟨?_, ⟨kept, _, hkeys ▸ horder.grown hmid hasks hthere⟩, fun key' hkey' => ?_⟩
    · rw [hkeys, ← List.concat_eq_append]
      exact (List.nodup_concat _ _).2 ⟨hthere, h.distinct⟩
    · rw [hkeys, List.mem_append, List.mem_singleton] at hkey'
      exact hvalued key' hkey'.symm

theorem drop (hasks : o.Asks (.drop key)) :
    Arranged (ops ++ [o]) org (mid.removeAttribute key) := by
  have hkeys : (mid.removeAttribute key).keys = mid.keys.filter (· ≠ key) := by
    have herase : (mid.removeAttribute key).keys = mid.keys.erase key :=
      Organization.keys_dropAttribute key mid.attributes
    rw [herase, h.distinct.erase_eq_filter]
    exact List.filter_congr fun key' _ => by rw [bne, beq_eq_decide, decide_not]
  obtain ⟨kept, added, horder⟩ := h.order
  refine ⟨hkeys ▸ h.distinct.filter _, ⟨_, _, hkeys ▸ horder.shrunk hmid hasks⟩, ?_⟩
  intro key' hkey'
  rw [hkeys, List.mem_filter, decide_eq_true_iff] at hkey'
  obtain ⟨hthere, hne⟩ := hkey'
  refine (h.valued key' hthere).concat ?_ fun value hput => nomatch hput.unique hasks
  exact Organization.attribute?_removeAttribute_of_ne hne

end Arranged

/-- Whatever operations are done, the attributes are arranged by them. -/
theorem apply_arranged (hdistinct : org.keys.Nodup) (h : apply ops org = .ok r) :
    Arranged ops org r := by
  -- from the last operation on, as what one does depends on those before it
  induction ops using List.reverseRecOn generalizing r with
  | nil => exact Except.ok.inj h ▸ .start hdistinct
  | append_singleton ops o ih =>
    obtain ⟨mid, hmid, e, hasks, -, rfl⟩ := applyAll_concat.1 h
    have harranged : Arranged ops org mid := ih hmid
    -- only two kinds of edits touch attributes
    cases e with
    | put key value => exact harranged.put hmid hasks
    | drop key => exact harranged.drop hmid hasks
    | name | description | status =>
      exact harranged.unmoved hmid rfl (by simp [hasks.iff]) (by simp [hasks.iff])

end Patch

end OrgForest
