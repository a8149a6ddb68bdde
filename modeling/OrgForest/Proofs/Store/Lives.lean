import OrgForest.Proofs.Program.Versions
import OrgForest.Proofs.Store.Consistent

/-!
# The life of a record

A record lives from the insertion that puts it in to the deletion that takes it out, or until the
store is cleared. An update counts its version up by one and leaves its creation time alone, so that
throughout its life the version says how often it has been updated. Of the updates that name one
version as the one they expect, the first that is accepted therefore shuts out all others: the
version they name has gone, and does not come back.

Nothing of this depends on what callers put into the records they hand over: of the version, the
creation time and the projections there, a store uses nothing.

* `Store.lives` — a history in which an id keeps its record;
* `Store.rewrites` — the accepted updates of an id along a history;
* `Store.AnswersUpdate` — how a store answers an update of a record it holds;
* `Store.versions_count` — versions count updates, and a version is written over once.
-/

namespace OrgForest

namespace Store

/-! ## Lives -/

/-- Whether a change ends the life of the record of an id. -/
def endsLife (s : Store) (id : String) : StoreChange → Bool
  | .delete gone =>
    match (s.delete gone).1 with
    | .deleted _ => gone == id
    | _ => false
  | .clear => true
  | _ => false

/-- Whether a history has no change that ends the life of the record of an id. -/
def lives (id : String) : Store → List StoreChange → Bool
  | _, [] => true
  | s, c :: changes => !s.endsLife id c && lives id (s.change c) changes

/-- The number of updates of an id along a history that have been accepted. -/
def rewrites (id : String) : Store → List StoreChange → Nat
  | _, [] => 0
  | s, c :: changes => (s.writesOver id c).toNat + rewrites id (s.change c) changes

theorem writesOver_update_iff {s : Store} {id : String} {new : Organization} {expected : UInt64} :
    s.writesOver id (.update new expected) = true ↔
      new.id = id ∧ ∃ stored, (s.update new expected).1 = .ok (.updated stored) := by
  unfold writesOver
  dsimp only
  split
  · next stored hyes => simp [hyes]
  · next hno => exact iff_of_false (by simp) fun ⟨_, stored, hyes⟩ => hno stored hyes

theorem lives_append {id : String} {early late : List StoreChange} {s : Store} :
    lives id s (early ++ late) = true ↔
      lives id s early = true ∧ lives id (early.foldl change s) late = true := by
  induction early generalizing s with
  | nil => simp [lives]
  | cons c early ih => simp [lives, ih, and_assoc]

theorem rewrites_append {id : String} {early late : List StoreChange} {s : Store} :
    rewrites id s (early ++ late) =
      rewrites id s early + rewrites id (early.foldl change s) late := by
  induction early generalizing s with
  | nil => simp [rewrites]
  | cons c early ih => simp [rewrites, ih, Nat.add_assoc]

/-! ## A record through its life -/

variable {s : Store} {id : String}

/-- A change that does not end the life of a record leaves one in its place. -/
theorem contains_change {c : StoreChange} (hgoes : s.endsLife id c = false)
    (hid : s.organizations.contains id = true) :
    (s.change c).organizations.contains id = true := by
  -- what is written into a table takes nothing out of it, so only a deletion has to be looked into
  cases c with
  | insert new b =>
    rcases insert_cases s new b with ⟨-, hsame⟩ | ⟨-, -, -, haccepted⟩
    · rwa [show s.change (.insert new b) = s from hsame]
    · rw [show s.change (.insert new b) = s.added new.asFirst b from congrArg Prod.snd haccepted]
      exact Table.contains_insert.2 (.inr hid)
  | update new expected =>
    rcases update_cases s new expected with
      ⟨-, hsame⟩ | ⟨existing, -, -, ⟨-, haccepted⟩ | ⟨-, -, haccepted⟩⟩
    · rwa [show s.change (.update new expected) = s from hsame]
    all_goals
      rw [show s.change (.update new expected) = _ from congrArg Prod.snd haccepted]
      exact Table.contains_insert.2 (.inr hid)
  | delete gone =>
    unfold endsLife at hgoes
    show (s.delete gone).2.organizations.contains id = true
    unfold delete at hgoes ⊢
    cases hget : s.organizations.get? gone with
    | none => exact hid
    | some existing =>
      simp only [hget] at hgoes ⊢
      split
      · exact hid
      · next hleaf =>
        -- the deletion is accepted, so it is that of another id
        rw [if_neg hleaf] at hgoes
        have hne : id ≠ gone := Ne.symm (beq_eq_false_iff_ne.1 hgoes)
        exact Table.contains_erase.2 ⟨hne, hid⟩
  | clear => simp [endsLife] at hgoes

/-- One change in the life of a record: the version counts it if it is an accepted update. -/
theorem record_step {c : StoreChange} (hgoes : s.endsLife id c = false) {r : Organization}
    (hr : s.organizations.get? id = some r) :
    ∃ r', (s.change c).organizations.get? id = some r' ∧ r'.created = r.created ∧
      r'.version = r.version + UInt64.ofNat (s.writesOver id c).toNat := by
  have hid := Table.contains_of_get? hr
  obtain ⟨r', hr'⟩ := Table.contains_iff.1 (contains_change hgoes hid)
  have hfresh : s.putsIn id c = false := by
    unfold putsIn
    split
    · next new b =>
      -- nothing is put in under an id that has a record
      rcases insert_cases s new b with ⟨hno, -⟩ | ⟨hnew, -, -, -⟩
      · split
        · next stored hyes => exact absurd hyes (hno stored)
        · rfl
      · split
        · rw [beq_eq_false_iff_ne]
          rintro rfl
          rw [hid] at hnew
          cases hnew
        · rfl
    · rfl
  refine ⟨r', hr', ?_⟩
  rcases record_change hfresh hr' with ⟨hno, hold⟩ | ⟨hyes, old, hold, hversion, hcreated⟩
  · obtain rfl : r = r' := Option.some.inj (hr.symm.trans hold)
    simp [hno]
  · obtain rfl : r = old := Option.some.inj (hr.symm.trans hold)
    rw [hyes]
    exact ⟨hcreated, hversion⟩

/-- Through the life of a record its version counts the accepted updates. -/
theorem record_foldl {changes : List StoreChange} (hlives : lives id s changes = true)
    {r : Organization} (hr : s.organizations.get? id = some r) :
    ∃ r', (changes.foldl change s).organizations.get? id = some r' ∧ r'.created = r.created ∧
      r'.version = r.version + UInt64.ofNat (rewrites id s changes) := by
  -- on the history, from its first change on
  induction changes generalizing s r with
  | nil => exact ⟨r, hr, rfl, by simp [rewrites]⟩
  | cons c changes ih =>
    rw [lives, Bool.and_eq_true, Bool.not_eq_true'] at hlives
    obtain ⟨mid, hmid, hcreated, hversion⟩ := record_step hlives.1 hr
    obtain ⟨r', hr', hcreated', hversion'⟩ := ih hlives.2 hmid
    refine ⟨r', hr', hcreated'.trans hcreated, ?_⟩
    rw [hversion', hversion, rewrites, UInt64.ofNat_add, UInt64.add_assoc]

/-! ## Answers to updates -/

/-- How a store answers an update of an id under which it holds a record: an update that expects
another version is told the version there is; one that expects this version is made, unless its
parent is missing or stands below the record. What is not made changes nothing. -/
structure AnswersUpdate (s : Store) (new : Organization) (expected : UInt64) (r : Organization) :
    Prop where
  held : s.organizations.get? new.id = some r
  stale : r.version ≠ expected →
    s.update new expected = (.ok (.versionMismatch r.version), s)
  current : r.version = expected →
    s.update new expected = (.ok (.updated (new.asNext r)), s.rewritten r (new.asNext r)) ∨
      s.update new expected = (.ok .parentMissing, s) ∨
      s.update new expected = (.ok .cycleDetected, s)

/-- Whatever a caller has put into a record, it is answered by the record that is held. -/
theorem Consistent.answers (h : s.Consistent) {new r : Organization} (expected : UInt64)
    (hr : s.organizations.get? new.id = some r) : s.AnswersUpdate new expected r := by
  refine ⟨hr, fun hne => ?_, fun heq => ?_⟩
  · simp only [Store.update, hr, ne_eq, hne, not_false_eq_true, if_true]
  · subst heq
    by_cases hparent : r.parentId = new.parentId
    · -- without a move nothing refuses the update
      refine .inl ?_
      rw [rewritten_of_kept (o := new.asNext r) hparent]
      simp only [Store.update, hr, hparent, ne_eq, not_true_eq_false, if_false, if_true]
      rfl
    · obtain ⟨refused, hmove⟩ := h.moveOutcome_ok r.id new.parentId
      cases refused with
      | none => exact .inl (update_eq hr hmove)
      | some refused =>
        have hrefused : s.update new r.version = (.ok refused, s) := by
          simp only [Store.update, hr, hparent, hmove, ne_eq, not_true_eq_false, if_false]
        rw [hrefused]
        rcases moveOutcome_eq_some hmove with rfl | rfl
        · exact .inr (.inl rfl)
        · exact .inr (.inr rfl)

/-- What has been accepted was expected to be written over the version there was. -/
theorem Consistent.version_of_updated (h : s.Consistent) {new r stored : Organization}
    {expected : UInt64} (hr : s.organizations.get? new.id = some r)
    (hupdated : (s.update new expected).1 = .ok (.updated stored)) : r.version = expected := by
  refine Decidable.byContradiction fun hne => ?_
  rw [(h.answers expected hr).stale hne] at hupdated
  cases hupdated

/-! ## Versions count updates -/

/-- An accepted insertion begins a life at version one. -/
theorem record_inserted {o : Organization} {b : TenantBinding}
    (hinserted : ∃ stored, (s.insert o b).1 = .inserted stored) :
    (s.change (.insert o b)).organizations.get? o.id = some o.asFirst := by
  obtain ⟨stored, hstored⟩ := hinserted
  rcases insert_cases s o b with ⟨hno, -⟩ | ⟨-, -, -, haccepted⟩
  · exact absurd hstored (hno stored)
  · rw [show s.change (.insert o b) = s.added o.asFirst b from congrArg Prod.snd haccepted]
    exact Table.get?_insert_self

/-- From version one on, a version is one more than the number of accepted updates, as long as the
counter does not run out. -/
theorem record_counts {first : Organization} (hfirst : s.organizations.get? id = some first)
    (hone : first.version = 1) {changes : List StoreChange} (hlives : lives id s changes = true)
    (hfew : 1 + rewrites id s changes < UInt64.size) :
    ∃ r, (changes.foldl change s).organizations.get? id = some r ∧
      r.version.toNat = 1 + rewrites id s changes ∧ r.created = first.created := by
  obtain ⟨r, hr, hcreated, hversion⟩ := record_foldl hlives hfirst
  refine ⟨r, hr, ?_, hcreated⟩
  have hone' : (1 : UInt64) = UInt64.ofNat 1 := rfl
  rw [hversion, hone, hone', ← UInt64.ofNat_add]
  exact UInt64.toNat_ofNat_of_lt hfew

/-- **A version counts updates, and is written over once.** Between the insertion of a record and
its end, whatever is asked of the store meanwhile and whatever callers put into the records they
hand over: the version of the record is one more than the number of updates that were accepted, and
its creation time that of the insertion; every update of it is answered by the record held at that
moment, and changes nothing unless it is accepted; and once an update has been accepted over some
version, every later update that expects this version is told the version there is instead. -/
theorem versions_count (before during : List StoreChange) (o : Organization) (b : TenantBinding)
    (hinserted : ∃ stored, ((after before).insert o b).1 = .inserted stored)
    (hlives : lives o.id ((after before).change (.insert o b)) during = true)
    (hfew : 1 + rewrites o.id ((after before).change (.insert o b)) during < UInt64.size) :
    let start := (after before).change (.insert o b)
    (∃ r, (during.foldl change start).organizations.get? o.id = some r ∧
      r.version.toNat = 1 + rewrites o.id start during ∧ r.created = o.created) ∧
    (∀ early late new expected, during = early ++ .update new expected :: late → new.id = o.id →
      ∃ r, AnswersUpdate (early.foldl change start) new expected r) ∧
    ∀ early mid late first second expected,
      during = early ++ .update first expected :: (mid ++ .update second expected :: late) →
      first.id = o.id → second.id = o.id →
      (∃ stored, ((early.foldl change start).update first expected).1 = .ok (.updated stored)) →
      let now := (early ++ .update first expected :: mid).foldl change start
      ∃ r, now.organizations.get? o.id = some r ∧
        now.update second expected = (.ok (.versionMismatch r.version), now) := by
  intro start
  have hstart : start.Consistent := (Consistent.after before).change _
  have hfirst : start.organizations.get? o.id = some o.asFirst := record_inserted hinserted
  have hlives : lives o.id start during = true := hlives
  have hfew : 1 + rewrites o.id start during < UInt64.size := hfew
  -- what holds of the whole life holds of every part of it from its beginning on
  have hpart : ∀ early late, during = early ++ late →
      ∃ r, (early.foldl change start).organizations.get? o.id = some r ∧
        r.version.toNat = 1 + rewrites o.id start early ∧ r.created = o.created := by
    rintro early late rfl
    rw [rewrites_append] at hfew
    exact record_counts hfirst rfl (lives_append.1 hlives).1 (by omega)
  refine ⟨hpart during [] (by simp), ?_, ?_⟩
  · rintro early late new expected hduring hid
    obtain ⟨r, hr, -, -⟩ := hpart early _ hduring
    exact ⟨r, (hstart.foldl early).answers expected (hid ▸ hr)⟩
  · rintro early mid late first second expected hduring hid hid' ⟨stored, hstored⟩ now
    obtain ⟨old, hold, hcount, -⟩ := hpart early _ hduring
    obtain ⟨r, hr, hcount', -⟩ := hpart (early ++ .update first expected :: mid)
      (.update second expected :: late) (by rw [hduring, List.append_assoc]; rfl)
    refine ⟨r, hr, (hstart.foldl _).answers expected (hid' ▸ hr) |>.stale fun heq => ?_⟩
    -- the first of the two has counted the version up, and versions do not count down
    have hover : (early.foldl change start).writesOver o.id (.update first expected) = true :=
      writesOver_update_iff.2 ⟨hid, stored, hstored⟩
    have hexpected : old.version = expected :=
      (hstart.foldl early).version_of_updated (hid ▸ hold) hstored
    rw [rewrites_append, rewrites, hover, Bool.toNat_true, heq, ← hexpected] at hcount'
    omega

/-- A root that is there already. -/
def seed : List StoreChange :=
  [.insert { Organization.new .epoch "Top" with id := "top" } ⟨"top", "top.example", 1⟩]

/-- Another root as a caller hands it over, with a version of its own. -/
def ann : Organization := { Organization.new .epoch "Ann" with id := "a", version := 7 }

/-- What writers make of a copy of it. -/
def copy : Organization := { Organization.new .epoch "Copy" with id := "a", version := 9 }

/-- Two writers hold a copy of the first version. The first of them takes the record below the other
root; the second comes too late, and so does a third who would take the record below itself. -/
def copied : List StoreChange := [
  .update { copy with parentId := some "top" } 1,
  .update copy 1,
  .delete "top",
  .update { copy with parentId := some "a" } 2]

theorem versions_count_copied :
    let start := (after seed).change (.insert ann ⟨"a", "a.example", 2⟩)
    lives "a" start copied = true ∧ rewrites "a" start copied = 1 ∧
      (∃ r, (copied.foldl change start).organizations.get? "a" = some r ∧
        r.version.toNat = 1 + rewrites "a" start copied ∧ r.created = ann.created) ∧
      let late := start.change (.update { copy with parentId := some "top" } 1)
      ∃ r, late.organizations.get? "a" = some r ∧
        late.update copy 1 = (.ok (.versionMismatch r.version), late) := by
  intro start
  have hinserted : ((after seed).insert ann ⟨"a", "a.example", 2⟩).1 = .inserted ann.asFirst := by
    decide +kernel
  have hlives : lives "a" start copied = true := by decide +kernel
  have hcount : rewrites "a" start copied = 1 := by decide +kernel
  have hfew : 1 + rewrites "a" start copied < UInt64.size := by
    rw [hcount]
    decide
  have hover : start.writesOver "a" (.update { copy with parentId := some "top" } 1) = true := by
    decide +kernel
  obtain ⟨hrecord, -, honce⟩ := versions_count seed copied ann ⟨"a", "a.example", 2⟩
    ⟨_, hinserted⟩ hlives hfew
  exact ⟨hlives, hcount, hrecord,
    honce [] [] _ _ _ 1 rfl rfl rfl (writesOver_update_iff.1 hover).2⟩

end Store

end OrgForest
