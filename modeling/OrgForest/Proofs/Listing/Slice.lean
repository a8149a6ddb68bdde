import OrgForest.Listing.Page
import OrgForest.Proofs.Store.Scan

/-!
# Slices of a listing

A page is meant to be a slice of its listing: the first organizations, those that follow a position,
or those that come just before one. What is found on the way there comes in the order in which the
listing is read, which for a page before a cursor is backward.

* `PageWindow.candidates`, `PageWindow.slice` — the organizations that a page is meant to hold;
* `PageWindow.Shows` — a page that holds them, with tokens for its neighbours;
* `PageWindow.shows_pageOf` — pages as they are made from what was found;
* `PageWindow.stop`, `PageWindow.next_pageOf` — where a page that is read forward stops.
-/

namespace OrgForest.PageWindow

/-! ## What a page is meant to be -/

/-- The part of a listing that lies on the page's side of its cursor. -/
def candidates (w : PageWindow) (listing : List Organization) : List Organization :=
  match w.cursor with
  | none => listing
  | some c =>
    match c.direction with
    | .after => listing.filter fun o => w.order.Lt c.position (.of w.key o)
    | .before => listing.filter fun o => w.order.Lt (.of w.key o) c.position

/-- The candidates next to the cursor, as many as a page holds: before a cursor they are the last
ones, and otherwise the first. -/
def slice (w : PageWindow) (listing : List Organization) : List Organization :=
  if w.goesBack then (w.candidates listing).drop ((w.candidates listing).length - w.limit)
  else (w.candidates listing).take w.limit

/-- The token of an organization's position. -/
def token (w : PageWindow) (secret : String) (direction : Direction) (o : Organization) : String :=
  (Cursor.new w.key w.order direction (.of w.key o)).encode secret

/-- A page that is the slice of a listing, with tokens for its neighbours. -/
structure Shows (w : PageWindow) (secret : String) (listing : List Organization)
    (page : Page BasicOrganization) : Prop where
  items : page.items = (w.slice listing).map (·.basic)
  /-- Away from the cursor there is a neighbour exactly if not all candidates are shown. -/
  onward : (if w.goesBack then page.previous else page.next).isSome ↔
    w.limit < (w.candidates listing).length
  /-- Towards the cursor there is one exactly if there is a cursor, and something to come from. -/
  backward : (if w.goesBack then page.next else page.previous).isSome ↔
    w.cursor.isSome ∧ page.items ≠ []
  next : ∀ t, page.next = some t →
    ∃ o, (w.slice listing).getLast? = some o ∧ t = w.token secret .after o
  previous : ∀ t, page.previous = some t →
    ∃ o, (w.slice listing).head? = some o ∧ t = w.token secret .before o

/-! ## Reading a listing -/

variable {w : PageWindow} {listing : List Organization}

/-- The listing in the order in which it is read. -/
def reading (w : PageWindow) (listing : List Organization) : List Organization :=
  if w.goesBack then listing.reverse else listing

theorem reading_filter (p : Organization → Bool) :
    (w.reading listing).filter p = w.reading (listing.filter p) := by
  unfold reading
  split
  · exact List.filter_reverse
  · rfl

/-- What is read from the cursor on are the candidates. -/
theorem reading_candidates : (w.reading listing).filter
    (w.readingOrder.Past w.key w.origin) = w.reading (w.candidates listing) := by
  rw [reading_filter]
  congr 1
  obtain ⟨limit, key, order, cursor⟩ := w
  cases cursor with
  | none => exact List.filter_eq_self.2 fun _ _ => rfl
  | some c =>
    obtain ⟨version, key', order', direction, position⟩ := c
    cases direction with
    | after => rfl
    | before =>
      -- past in the direction of reading is before in that of the listing
      refine List.filter_congr fun o _ => ?_
      exact decide_eq_decide.2 SortOrder.lt_reverse

theorem candidates_filter (p : Organization → Bool) :
    w.candidates (listing.filter p) = (w.candidates listing).filter p := by
  unfold candidates
  split
  · rfl
  · split <;> rw [List.filter_filter, List.filter_filter] <;> simp only [Bool.and_comm]

/-! ## Making a page -/

theorem isSome_tokenFrom (w : PageWindow) (secret : String) (wanted : Bool) (direction : Direction)
    (o? : Option Organization) :
    (w.tokenFrom secret wanted direction o?).isSome ↔ wanted = true ∧ o?.isSome := by
  cases o? with
  | none => simp [tokenFrom]
  | some o => cases wanted <;> simp [tokenFrom]

theorem tokenFrom_eq_some {secret : String} {wanted : Bool} {direction : Direction}
    {o? : Option Organization} {t : String} (h : w.tokenFrom secret wanted direction o? = some t) :
    ∃ o, o? = some o ∧ t = w.token secret direction o := by
  cases o? with
  | none => cases h
  | some o =>
    unfold tokenFrom at h
    cases wanted with
    | false => cases h
    | true => exact ⟨o, rfl, (Option.some.inj h).symm⟩

/-- What a page keeps of what was found is the slice. -/
theorem kept_eq_slice :
    w.reading (((w.reading (w.candidates listing)).take (w.limit + 1)).take w.limit) =
      w.slice listing := by
  rw [List.take_take, Nat.min_eq_left (Nat.le_succ _)]
  unfold reading slice
  split
  · rw [List.take_reverse, List.reverse_reverse]
  · rfl

theorem length_reading (listing : List Organization) :
    (w.reading listing).length = listing.length := by
  unfold reading
  split
  · exact List.length_reverse
  · rfl

theorem slice_ne_nil (hlimit : w.limit ≠ 0) (h : w.limit < (w.candidates listing).length) :
    w.slice listing ≠ [] := by
  unfold slice
  rw [← List.length_pos_iff]
  split
  · rw [List.length_drop]
    omega
  · rw [List.length_take]
    omega

/-- A page of what is read from its cursor on, up to one more than it holds. -/
theorem shows_pageOf (hlimit : w.limit ≠ 0) (secret : String) : w.Shows secret listing
    ((w.pageOf secret ((w.reading (w.candidates listing)).take (w.limit + 1))).map (·.basic)) := by
  generalize hfound : (w.reading (w.candidates listing)).take (w.limit + 1) = found
  have hitems : (w.pageOf secret found).items = w.slice listing := by
    rw [← kept_eq_slice, hfound]
    rfl
  have hnext : (w.pageOf secret found).next = w.tokenFrom secret
      (if w.goesBack then w.cursor.isSome else decide (w.limit < found.length)) .after
      (w.slice listing).getLast? := by
    rw [← hitems]
    rfl
  have hprevious : (w.pageOf secret found).previous = w.tokenFrom secret
      (if w.goesBack then decide (w.limit < found.length) else w.cursor.isSome) .before
      (w.slice listing).head? := by
    rw [← hitems]
    refine congrArg (w.tokenFrom secret · .before (w.pageOf secret found).items.head?) ?_
    show decide (if w.goesBack then w.limit < found.length else w.cursor.isSome = true) = _
    cases w.goesBack with
    | false => simp only [Bool.false_eq_true, if_false, Bool.decide_eq_true]
    | true => simp only [if_true]
  -- one more than the page holds has been found if there are more candidates
  have hmore : w.limit < found.length ↔ w.limit < (w.candidates listing).length := by
    rw [← hfound, List.length_take, length_reading]
    omega
  have hsome (hmany : w.limit < (w.candidates listing).length) : w.slice listing ≠ [] :=
    slice_ne_nil hlimit hmany
  -- a token is made only from an organization of the page, which is there whenever one is wanted
  refine ⟨congrArg _ hitems, ?_, ?_, fun t ht => ?_, fun t ht => ?_⟩
  · show (if w.goesBack then (w.pageOf secret found).previous
      else (w.pageOf secret found).next).isSome ↔ _
    rw [hnext, hprevious]
    cases w.goesBack with
    | false =>
      simp only [Bool.false_eq_true, if_false, isSome_tokenFrom, decide_eq_true_eq,
        List.getLast?_isSome, hmore]
      exact ⟨And.left, fun hmany => ⟨hmany, hsome hmany⟩⟩
    | true =>
      simp only [if_true, isSome_tokenFrom, decide_eq_true_eq, List.isSome_head?, hmore]
      exact ⟨And.left, fun hmany => ⟨hmany, hsome hmany⟩⟩
  · show (if w.goesBack then (w.pageOf secret found).next
      else (w.pageOf secret found).previous).isSome ↔
        w.cursor.isSome ∧ (w.pageOf secret found).items.map _ ≠ []
    rw [hnext, hprevious, hitems, Ne, List.map_eq_nil_iff]
    cases w.goesBack with
    | false => simp only [Bool.false_eq_true, if_false, isSome_tokenFrom, List.isSome_head?, Ne]
    | true => simp only [if_true, isSome_tokenFrom, List.getLast?_isSome, Ne]
  · exact tokenFrom_eq_some (hnext.symm.trans ht)
  · exact tokenFrom_eq_some (hprevious.symm.trans ht)

/-! ## Pages read forward -/

variable {found : List Organization}

/-- Where a page stops: at the last organization that it holds, if more has been found. -/
def stop (w : PageWindow) (found : List Organization) : Option Position :=
  if w.limit < found.length then (found.take w.limit).getLast?.map (Position.of w.key) else none

theorem stop_eq_some {q : Position} (h : w.stop found = some q) :
    w.limit < found.length ∧
      ∃ last, (found.take w.limit).getLast? = some last ∧ Position.of w.key last = q := by
  unfold stop at h
  split at h
  · next hmore => exact ⟨hmore, Option.map_eq_some_iff.1 h⟩
  · cases h

theorem items_pageOf (hforward : w.goesBack = false) (secret : String)
    (found : List Organization) : (w.pageOf secret found).items = found.take w.limit := by
  unfold pageOf
  rw [hforward]
  rfl

/-- The token for the next page carries the position where this one stops. -/
theorem next_pageOf (hforward : w.goesBack = false) (secret : String) :
    (w.pageOf secret found).next =
      (w.stop found).map fun p => (Cursor.new w.key w.order .after p).encode secret := by
  have hnext : (w.pageOf secret found).next =
      w.tokenFrom secret (decide (w.limit < found.length)) .after
        (found.take w.limit).getLast? := by
    unfold pageOf
    rw [hforward]
    rfl
  rw [hnext, stop]
  cases (found.take w.limit).getLast? with
  | none => split <;> rfl
  | some last =>
    by_cases hmore : w.limit < found.length
    · rw [if_pos hmore, decide_eq_true hmore]
      rfl
    · rw [if_neg hmore, decide_eq_false hmore]
      rfl

end OrgForest.PageWindow
