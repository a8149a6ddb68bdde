import OrgForest.Proofs.Directory.Filling
import OrgForest.Proofs.Program.Ahead

/-!
# Filling a page while the store changes

Every batch of a page may come from another store. What is found is in order all the same, since a
batch lies past the last organization of the one before. And an organization that the listing shows
at one and the same position all the time is not missed: at any moment it has been found if its
position has been passed, and it is still to come if not. The page comes to its end because each
full batch leaves fewer organizations that can still come up.

* `Directory.Shown`, `Directory.Stays` — what a listing shows, and a position at which it always
  shows something;
* `Directory.Fills`, `Directory.Fills.next` — a page being filled, and one batch more;
* `Directory.Filled`, `Directory.run_fill_disturbed` — what has been found in the end.
-/

namespace OrgForest

namespace Directory

variable {sel : Selection} {allow : BasicOrganization → Bool} {past past' : List Moment}

/-! ## What there is to find -/

/-- What a listing shows of a store: the organizations that its scope covers, that pass its filter
and that the caller may see. -/
def Shown (scope : Scope) (filter : Option Filter) (allow : BasicOrganization → Bool) (s : Store)
    (o : Organization) : Prop :=
  scope.Covers s o ∧ filter.all (·.holds o) = true ∧ allow o.basic = true

theorem Shown.holds {scope : Scope} {filter : Option Filter} {s : Store} {o : Organization}
    (h : Shown scope filter allow s o) : s.Holds o :=
  h.1.holds

/-- At every moment of a history there is something shown at this position. -/
def Stays (shown : Store → Organization → Prop) (key : SortKey) (past : List Moment)
    (p : Position) : Prop :=
  ∀ m ∈ past, ∃ o, shown m.store o ∧ Position.of key o = p

/-- What the listing of a selection shows. -/
def Selection.shown (sel : Selection) (allow : BasicOrganization → Bool) :
    Store → Organization → Prop :=
  Shown sel.scope sel.filter allow

/-- What has been found is sorted, lies past the origin, and was there when it was found. -/
structure Sound (sel : Selection) (allow : BasicOrganization → Bool) (past : List Moment)
    (found : List Organization) : Prop where
  sorted : Sorted sel.window.key sel.window.readingOrder found
  beyond : ∀ o ∈ found, sel.window.readingOrder.Beyond sel.window.origin (.of sel.window.key o)
  seen : ∀ o ∈ found, ∃ m ∈ past, sel.shown allow m.store o

/-- How far a page has been filled: up to a position, with nothing left out that has stayed where it
is. -/
structure Fills (sel : Selection) (allow : BasicOrganization → Bool) (past : List Moment)
    (f : Filling) : Prop extends Sound sel allow past f.found where
  upto : ∀ o ∈ f.found, ∀ p, sel.window.readingOrder.Beyond f.position p →
    sel.window.readingOrder.Lt (.of sel.window.key o) p
  onward : ∀ p, sel.window.readingOrder.Beyond f.position p →
    sel.window.readingOrder.Beyond sel.window.origin p
  complete : ∀ p, Stays (sel.shown allow) sel.window.key past p →
    sel.window.readingOrder.Beyond sel.window.origin p →
    ¬sel.window.readingOrder.Beyond f.position p →
      ∃ o ∈ f.found, Position.of sel.window.key o = p

/-- What fills a page in the end: whatever has stayed where it is, past the origin, is on the page,
or there is more than the page holds and it comes behind. -/
structure Filled (sel : Selection) (allow : BasicOrganization → Bool) (past : List Moment)
    (found : List Organization) : Prop extends Sound sel allow past found where
  complete : ∀ p, Stays (sel.shown allow) sel.window.key past p →
    sel.window.readingOrder.Beyond sel.window.origin p →
    (∃ o ∈ found.take sel.window.limit, Position.of sel.window.key o = p) ∨
      sel.window.limit < found.length ∧ ∀ o ∈ found.take sel.window.limit,
        sel.window.readingOrder.Lt (.of sel.window.key o) p

/-! ## One batch -/

theorem Sound.later {found : List Organization} (h : Sound sel allow past found)
    (hpast : past ⊆ past') : Sound sel allow past' found where
  sorted := h.sorted
  beyond := h.beyond
  seen o ho := by
    obtain ⟨m, hm, hshown⟩ := h.seen o ho
    exact ⟨m, hpast hm, hshown⟩

theorem Filled.later {found : List Organization} (h : Filled sel allow past found)
    (hpast : past ⊆ past') : Filled sel allow past' found where
  toSound := h.toSound.later hpast
  complete p hp := h.complete p fun m hm => hp m (hpast hm)

/-- What has been found stays found, whatever happens meanwhile. -/
theorem Fills.later {f : Filling} (h : Fills sel allow past f) (hpast : past ⊆ past') :
    Fills sel allow past' f where
  toSound := h.toSound.later hpast
  upto := h.upto
  onward := h.onward
  complete p hp := h.complete p fun m hm => hp m (hpast hm)

theorem fills_start (sel : Selection) (allow : BasicOrganization → Bool) (past : List Moment) :
    Fills sel allow past ⟨[], sel.window.origin⟩ where
  sorted := .nil
  beyond _ h := by cases h
  seen _ h := by cases h
  upto _ h := by cases h
  onward _ h := h
  complete _ _ hin hout := absurd hin hout

/-- In a sorted list nothing comes behind the last one. -/
theorem Sorted.le_last {key : SortKey} {order : SortOrder} {os : List Organization}
    (h : Sorted key order os) {last : Organization} (hlast : os.getLast? = some last)
    {o : Organization} (ho : o ∈ os) :
    Position.of key o = .of key last ∨ order.Lt (.of key o) (.of key last) := by
  obtain ⟨front, rfl⟩ := List.getLast?_eq_some_iff.1 hlast
  rcases List.mem_append.1 ho with ho | ho
  · exact .inr ((List.pairwise_append.1 h).2.2 o ho last (List.mem_singleton_self last))
  · obtain rfl := List.mem_singleton.1 ho
    exact .inl rfl

section Batch

variable {f : Filling} {m : Moment} {listing : List Organization}

theorem mem_rest {o : Organization} : o ∈ sel.rest listing f ↔ o ∈ listing ∧
    sel.window.readingOrder.Beyond f.position (.of sel.window.key o) := by
  rw [Selection.rest, List.mem_filter, Selection.past, SortOrder.past_iff]

theorem mem_rest_of_batch {o : Organization} (ho : o ∈ sel.batch listing f) :
    o ∈ sel.rest listing f :=
  List.mem_of_mem_take ho

/-- What lies past a batch lies past all of it, and past the position from which it was scanned. -/
theorem beyond_batch
    (hsorted : Sorted sel.window.key sel.window.readingOrder listing) {p : Position}
    (hp : sel.window.readingOrder.Beyond (sel.next allow listing f).position p) :
    sel.window.readingOrder.Beyond f.position p ∧ ∀ o ∈ sel.batch listing f,
      sel.window.readingOrder.Lt (.of sel.window.key o) p := by
  have hbatch : Sorted sel.window.key sel.window.readingOrder (sel.batch listing f) :=
    (hsorted.filter _).sublist (List.take_sublist _ _)
  unfold Selection.next at hp
  cases hlast : (sel.batch listing f).getLast? with
  | none =>
    rw [hlast] at hp
    refine ⟨hp, fun o ho => ?_⟩
    rw [List.getLast?_eq_none_iff.1 hlast] at ho
    cases ho
  | some last =>
    rw [hlast] at hp
    have hlt : sel.window.readingOrder.Lt (.of sel.window.key last) p := hp _ rfl
    have hin := (mem_rest.1 (mem_rest_of_batch (List.mem_of_getLast? hlast))).2
    refine ⟨fun q hq => SortOrder.lt_trans (hin q hq) hlt, fun o ho => ?_⟩
    exact SortOrder.lt_of_eq_or_lt (Sorted.le_last hbatch hlast ho) hlt

/-- What a batch leaves over lies past it. -/
theorem beyond_of_left (hsorted : Sorted sel.window.key sel.window.readingOrder listing)
    {o : Organization} (ho : o ∈ (sel.rest listing f).drop sel.batchSize) :
    sel.window.readingOrder.Beyond (sel.next allow listing f).position
      (.of sel.window.key o) := by
  have hrest : Sorted sel.window.key sel.window.readingOrder (sel.batch listing f ++
      (sel.rest listing f).drop sel.batchSize) := by
    rw [Selection.batch, List.take_append_drop]
    exact hsorted.filter _
  unfold Selection.next
  cases hlast : (sel.batch listing f).getLast? with
  | none => exact (mem_rest.1 (List.mem_of_mem_drop ho)).2
  | some last =>
    -- the batch and what it leaves over are one sorted list
    rintro q ⟨⟩
    exact (List.pairwise_append.1 hrest).2.2 last (List.mem_of_getLast? hlast) o ho

/-- What has stayed where it is has been found with the batch, or the batch leaves it over. -/
theorem Fills.found_or_left (h : Fills sel allow past f) (hm : m ∈ past)
    (hlists : m.store.Lists sel.scope sel.passes sel.window.key sel.window.readingOrder listing)
    {p : Position} (hp : Stays (sel.shown allow) sel.window.key past p)
    (horigin : sel.window.readingOrder.Beyond sel.window.origin p) :
    (∃ o ∈ (sel.next allow listing f).found, Position.of sel.window.key o = p) ∨
      ∃ o ∈ (sel.rest listing f).drop sel.batchSize, Position.of sel.window.key o = p := by
  by_cases hbeyond : sel.window.readingOrder.Beyond f.position p
  · -- at the moment of the scan it is shown, so it is among what is left to scan
    obtain ⟨o, ⟨hcovers, hpasses, hallow⟩, rfl⟩ := hp m hm
    have hrest : o ∈ sel.rest listing f :=
      mem_rest.2 ⟨(hlists.mem_iff o).2 ⟨hcovers, hpasses⟩, hbeyond⟩
    rw [← List.take_append_drop sel.batchSize (sel.rest listing f)] at hrest
    rcases List.mem_append.1 hrest with hbatch | hleft
    · exact .inl ⟨o, List.mem_append_right _ (List.mem_filter.2 ⟨hbatch, hallow⟩), rfl⟩
    · exact .inr ⟨o, hleft, rfl⟩
  · -- its position has been passed, so it has been found before
    obtain ⟨o, ho, heq⟩ := h.complete p hp horigin hbeyond
    exact .inl ⟨o, List.mem_append_left _ ho, heq⟩

/-- One batch more, scanned from the store of some moment. -/
theorem Fills.next (h : Fills sel allow past f) (hm : m ∈ past)
    (hlists : m.store.Lists sel.scope sel.passes sel.window.key sel.window.readingOrder listing) :
    Fills sel allow past (sel.next allow listing f) where
  sorted := by
    have hbatch : Sorted sel.window.key sel.window.readingOrder (sel.batch listing f) :=
      (hlists.sorted.filter _).sublist (List.take_sublist _ _)
    -- the batch lies behind the position, and all that has been found does not
    refine List.pairwise_append.2 ⟨h.sorted, hbatch.filter _, fun a ha b hb => ?_⟩
    exact h.upto a ha _ (mem_rest.1 (mem_rest_of_batch (List.mem_filter.1 hb).1)).2
  beyond o ho := by
    rcases List.mem_append.1 ho with ho | ho
    · exact h.beyond o ho
    · exact h.onward _ (mem_rest.1 (mem_rest_of_batch (List.mem_filter.1 ho).1)).2
  seen o ho := by
    rcases List.mem_append.1 ho with ho | ho
    · exact h.seen o ho
    · obtain ⟨hbatch, hallow⟩ := List.mem_filter.1 ho
      obtain ⟨hcovers, hpasses⟩ :=
        (hlists.mem_iff o).1 (mem_rest.1 (mem_rest_of_batch hbatch)).1
      exact ⟨m, hm, hcovers, hpasses, hallow⟩
  upto o ho p hp := by
    obtain ⟨hbefore, hbatch⟩ := beyond_batch hlists.sorted hp
    rcases List.mem_append.1 ho with ho | ho
    · exact h.upto o ho p hbefore
    · exact hbatch o (List.mem_filter.1 ho).1
  onward p hp := h.onward p (beyond_batch hlists.sorted hp).1
  complete p hp horigin hnot := by
    -- a position that has been passed is not among those that the batch leaves over
    refine (h.found_or_left hm hlists hp horigin).resolve_right ?_
    rintro ⟨o, ho, rfl⟩
    exact hnot (beyond_of_left hlists.sorted ho)

/-! ## A page -/

/-- A page is full when more has been found than it holds: what has not been found lies behind. -/
theorem Fills.filled_of_full (h : Fills sel allow past f)
    (hfull : sel.window.limit < f.found.length) :
    Filled sel allow past (f.found.take (sel.window.limit + 1)) where
  sorted := h.sorted.sublist (List.take_sublist _ _)
  beyond o ho := h.beyond o (List.mem_of_mem_take ho)
  seen o ho := h.seen o (List.mem_of_mem_take ho)
  complete p hp horigin := by
    have hkept : (f.found.take (sel.window.limit + 1)).take sel.window.limit =
        f.found.take sel.window.limit := by
      rw [List.take_take, Nat.min_eq_left (Nat.le_succ _)]
    have hlen : sel.window.limit < (f.found.take (sel.window.limit + 1)).length := by
      rw [List.length_take]
      omega
    rw [hkept]
    by_cases hbeyond : sel.window.readingOrder.Beyond f.position p
    · exact .inr ⟨hlen, fun o ho => h.upto o (List.mem_of_mem_take ho) p hbeyond⟩
    · -- it has been found, and is either on the page or behind it
      obtain ⟨o, ho, rfl⟩ := h.complete p hp horigin hbeyond
      rw [← List.take_append_drop sel.window.limit f.found] at ho
      rcases List.mem_append.1 ho with ho | ho
      · exact .inl ⟨o, ho, rfl⟩
      · have hsorted := h.sorted
        rw [← List.take_append_drop sel.window.limit f.found] at hsorted
        exact .inr ⟨hlen, fun o' ho' => (List.pairwise_append.1 hsorted).2.2 o' ho' o ho⟩

/-- A page ends with a batch that is not full, which leaves nothing over. -/
theorem Fills.filled_of_short (h : Fills sel allow past f) (hm : m ∈ past)
    (hlists : m.store.Lists sel.scope sel.passes sel.window.key sel.window.readingOrder listing)
    (hshort : (sel.batch listing f).length < sel.batchSize)
    (hroom : (sel.next allow listing f).found.length ≤ sel.window.limit) :
    Filled sel allow past (sel.next allow listing f).found where
  toSound := (h.next hm hlists).toSound
  complete p hp horigin := by
    -- a batch with room to spare has taken all that was left
    have hnone : (sel.rest listing f).drop sel.batchSize = [] := by
      rw [Selection.batch, List.length_take] at hshort
      rw [List.drop_eq_nil_iff]
      omega
    have hfound := h.found_or_left hm hlists hp horigin
    rw [hnone] at hfound
    rw [List.take_of_length_le hroom]
    refine .inl (hfound.resolve_right ?_)
    rintro ⟨_, hno, -⟩
    cases hno

end Batch

/-! ## In disturbed surroundings -/

theorem readOnly_fillRound (sel : Selection) (allow : BasicOrganization → Bool) (f : Filling) :
    (fillRound sel allow f).ReadOnly := by
  refine (Action.readOnly_call rfl).bind fun batch => ?_
  dsimp only
  split <;> exact Action.readOnly_pure _

/-- The batch of a round comes from the store that others leave behind before the call. -/
theorem run_fillRound_disturbed {d : Disturbed} (hd : d.store.Consistent)
    (allow : BasicOrganization → Bool) (f : Filling) :
    ∃ listing, d.interrupted.store.Lists sel.scope sel.passes sel.window.key
        sel.window.readingOrder listing ∧
      (fillRound sel allow f).run Disturbed.environment d =
        let found := (sel.next allow listing f).found.take (sel.window.limit + 1)
        (.ok (if (sel.batch listing f).length < sel.batchSize || sel.window.limit < found.length
            then .inr found else .inl ⟨found, (sel.next allow listing f).position⟩),
          d.interrupted.happen (.own (.scan (sel.request f)))) := by
  obtain ⟨new, hleads, -⟩ := d.leads_interrupted
  have hd' := hleads.consistent hd
  obtain ⟨listing, hlists⟩ := hd'.exists_lists sel.scope sel.passes sel.window.key
    sel.window.readingOrder
  have hscan : d.interrupted.store.scan (sel.request f) = .ok (sel.batch listing f) :=
    hd'.scan_lists (sel.request f) hlists
  have hcall : (Action.call (.scan (sel.request f))).run Disturbed.environment d =
      (.ok (sel.batch listing f), d.interrupted.happen (.own (.scan (sel.request f)))) := by
    rw [Action.run_call]
    show ((d.interrupted.store.scan (sel.request f)).mapError _, _) = _
    rw [hscan]
    rfl
  exact ⟨listing, hlists, run_fillRound_of_scan hcall⟩

/-- A full batch takes the page further on. -/
theorem exists_last_of_full (allow : BasicOrganization → Bool) {f : Filling}
    {listing : List Organization} (hbatch : sel.batchSize ≠ 0)
    (hfull : ¬(sel.batch listing f).length < sel.batchSize) :
    ∃ last ∈ sel.rest listing f,
      (sel.next allow listing f).position = some (.of sel.window.key last) := by
  have hne : sel.batch listing f ≠ [] := by
    intro hnil
    rw [hnil, List.length_nil] at hfull
    omega
  refine ⟨_, mem_rest_of_batch (List.getLast_mem hne), ?_⟩
  unfold Selection.next
  rw [List.getLast?_eq_some_getLast hne]
  rfl

/-- A round fills the page by one batch more and leaves less to come, or it ends the page. -/
theorem fillRound_fills {d : Disturbed} (hd : d.store.Consistent) (hbatch : sel.batchSize ≠ 0)
    {f : Filling} (h : Fills sel allow past f) :
    ∃ outcome e new, (fillRound sel allow f).run Disturbed.environment d = (.ok outcome, e) ∧
      d.Watches new e ∧
      match outcome with
      | .inl f' => Fills sel allow (past ++ new) f' ∧
          e.left (sel.past f'.position) < d.left (sel.past f.position)
      | .inr found => Filled sel allow (past ++ new) found := by
  obtain ⟨listing, hlists, hrun⟩ := run_fillRound_disturbed hd allow f
  obtain ⟨new, hwatches⟩ := (readOnly_fillRound sel allow f).watches d
  rw [hrun] at hwatches
  refine ⟨_, _, new, hrun, hwatches, ?_⟩
  -- the store of the scan is that of the last of the moments
  let scanned : Moment := ⟨d.interrupted.store, .own (.scan (sel.request f))⟩
  have hscanned : scanned ∈ new := by
    obtain ⟨before, hleads, -⟩ := d.leads_interrupted
    have hpast : d.past ++ new = d.past ++ (before ++ [scanned]) := by
      rw [← List.append_assoc, ← hleads.past]
      exact hwatches.past.symm
    rw [List.append_cancel_left hpast]
    exact List.mem_append_right _ (List.mem_singleton_self _)
  have hm : scanned ∈ past ++ new := List.mem_append_right _ hscanned
  have hlater := h.later (List.subset_append_left past new)
  have hnext := hlater.next hm hlists
  by_cases hfull : sel.window.limit < (sel.next allow listing f).found.length
  · have hlen : sel.window.limit <
        ((sel.next allow listing f).found.take (sel.window.limit + 1)).length := by
      rw [List.length_take]
      omega
    rw [if_pos]
    · exact hnext.filled_of_full hfull
    · rw [Bool.or_eq_true]
      exact .inr (decide_eq_true hlen)
  · have hroom : (sel.next allow listing f).found.length ≤ sel.window.limit :=
      Nat.le_of_not_lt hfull
    rw [List.take_of_length_le (Nat.le_succ_of_le hroom)]
    by_cases hshort : (sel.batch listing f).length < sel.batchSize
    · rw [if_pos (by simp [hshort])]
      exact hlater.filled_of_short hm hlists hshort hroom
    · rw [if_neg (by simp [hshort, hfull])]
      refine ⟨hnext, ?_⟩
      -- the last organization of the batch can come up no more
      obtain ⟨last, hlast, hposition⟩ := exists_last_of_full allow hbatch hshort
      obtain ⟨hlisted, hbeyond⟩ := mem_rest.1 hlast
      have hheld := ((hlists.mem_iff last).1 hlisted).1.holds
      show _ < _
      dsimp only
      rw [hposition]
      exact hwatches.left_lt hscanned hheld (fun _ => SortOrder.past_of_past hbeyond)
        (SortOrder.past_iff.2 hbeyond) SortOrder.past_self

theorem run_rounds_disturbed {horizon n : Nat} {d : Disturbed} (hd : d.store.Consistent)
    (hbatch : sel.batchSize ≠ 0) {f : Filling} (h : Fills sel allow past f)
    (hn : d.left (sel.past f.position) < n) :
    ∃ found e new, (Action.rounds horizon (fillRound sel allow) n f).run Disturbed.environment d =
      (.ok found, e) ∧ d.Watches new e ∧ Filled sel allow (past ++ new) found := by
  -- on the rounds allowed, which stay ahead of what can still come up
  induction n generalizing d f past with
  | zero => omega
  | succ n ih =>
    obtain ⟨outcome, m, new, hround, hwatches, hafter⟩ := fillRound_fills hd hbatch h
    rw [Action.run_rounds_succ, hround]
    cases outcome with
    | inl f' =>
      obtain ⟨hfills, hless⟩ := hafter
      obtain ⟨found, e, new', hrun, hrest, hfilled⟩ :=
        ih (hwatches.consistent hd) hfills (by omega)
      rw [List.append_assoc] at hfilled
      exact ⟨found, e, new ++ new', hrun, hwatches.trans hrest, hfilled⟩
    | inr found => exact ⟨found, m, new, rfl, hwatches, hafter⟩

/-- Whatever others do, the page is filled in the end. -/
theorem run_fill_disturbed {d : Disturbed} (hd : d.store.Consistent) (sel : Selection)
    (hbatch : sel.batchSize ≠ 0) (allow : BasicOrganization → Bool) :
    ∃ found e new, (fill sel allow).run Disturbed.environment d = (.ok found, e) ∧
      d.Watches new e ∧ Filled sel allow new found := by
  rw [fill, Action.run_iterate]
  exact run_rounds_disturbed hd hbatch (fills_start sel allow []) (d.left_lt_horizon _)

end Directory

end OrgForest
