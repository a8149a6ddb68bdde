import OrgForest.Directory.Listing
import OrgForest.Proofs.Program.Still
import OrgForest.Proofs.Store.Scan

/-!
# Filling a page

A page is filled batch by batch, each scanned from the last organization of the one before. In still
surroundings the batches are cut off the listing one after the other, so what has been found in the
end is what a single pass over the listing would have found, whatever the size of the batches.

* `Directory.Selection.batch`, `Directory.Selection.next` — the next batch, and the page after it;
* `Directory.rest_next` — a batch leaves over what follows it;
* `Directory.run_fillRound_of_scan` — one batch, in any surroundings;
* `Directory.run_fill` — all of them, in still ones.
-/

namespace OrgForest.Directory

variable {setting : Setting} {s : Surroundings} {sel : Selection}
  {allow : BasicOrganization → Bool} {listing : List Organization}

/-- Whether a selection's filter lets an organization pass. -/
def Selection.passes (sel : Selection) (o : Organization) : Bool := sel.filter.all (·.holds o)

/-- Whether an organization lies past a position in the order in which a selection is read. -/
def Selection.past (sel : Selection) (p : Option Position) : Organization → Bool :=
  sel.window.readingOrder.Past sel.window.key p

/-- What the next batch is scanned by. -/
def Selection.request (sel : Selection) (f : Filling) : Scan :=
  ⟨sel.scope, sel.filter, sel.window.key, sel.window.readingOrder, f.position, sel.batchSize⟩

/-- What is left to scan from where a page has been filled to. -/
def Selection.rest (sel : Selection) (listing : List Organization) (f : Filling) :
    List Organization :=
  listing.filter (sel.past f.position)

/-- The next batch. -/
def Selection.batch (sel : Selection) (listing : List Organization) (f : Filling) :
    List Organization :=
  (sel.rest listing f).take sel.batchSize

/-- The page after the next batch, however much it holds. -/
def Selection.next (sel : Selection) (allow : BasicOrganization → Bool)
    (listing : List Organization) (f : Filling) : Filling :=
  ⟨f.found ++ (sel.batch listing f).filter fun o => allow o.basic,
    ((sel.batch listing f).getLast?.map (Position.of sel.window.key)).or f.position⟩

/-- The next page goes on with what its batch has left over. -/
theorem rest_next (hsorted : Sorted sel.window.key sel.window.readingOrder listing) (f : Filling) :
    sel.rest listing (sel.next allow listing f) = (sel.rest listing f).drop sel.batchSize :=
  hsorted.filter_past_taken f.position sel.batchSize

/-- A round, once its scan has given a batch. What is found beyond one more than the page holds is
dropped. -/
theorem run_fillRound_of_scan {σ : Type} {env : Environment σ} {t u : σ} {f : Filling}
    (hscan : (Action.call (.scan (sel.request f))).run env t = (.ok (sel.batch listing f), u)) :
    let found := (sel.next allow listing f).found.take (sel.window.limit + 1)
    (fillRound sel allow f).run env t =
      (.ok (if (sel.batch listing f).length < sel.batchSize || sel.window.limit < found.length
        then .inr found else .inl ⟨found, (sel.next allow listing f).position⟩), u) := by
  unfold Selection.request at hscan
  rw [fillRound, Action.run_bind, hscan]
  dsimp only [Selection.next]
  split <;> rfl

theorem run_fillRound (hs : s.store.Consistent)
    (hlists : s.store.Lists sel.scope sel.passes sel.window.key sel.window.readingOrder listing)
    (f : Filling) :
    let found := (sel.next allow listing f).found.take (sel.window.limit + 1)
    (fillRound sel allow f).run setting.still s =
      (.ok (if (sel.batch listing f).length < sel.batchSize || sel.window.limit < found.length
        then .inr found else .inl ⟨found, (sel.next allow listing f).position⟩), s) := by
  have hscan : s.store.scan (sel.request f) = .ok (sel.batch listing f) :=
    hs.scan_lists (sel.request f) hlists
  refine run_fillRound_of_scan ?_
  show ((s.store.scan (sel.request f)).mapError _, s) = _
  rw [hscan]
  rfl

/-- What is found from a position on: all that may be seen, up to one more than the page holds. -/
theorem run_fill_rounds (hs : s.store.Consistent) (hbatch : sel.batchSize ≠ 0)
    (hlists : s.store.Lists sel.scope sel.passes sel.window.key sel.window.readingOrder listing)
    {horizon n : Nat} {f : Filling} (hn : (sel.rest listing f).length < n)
    (hfound : f.found.length ≤ sel.window.limit) :
    (Action.rounds horizon (fillRound sel allow) n f).run setting.still s =
      (.ok ((f.found ++ (sel.rest listing f).filter fun o => allow o.basic).take
        (sel.window.limit + 1)), s) := by
  -- on the rounds left: every batch that is full takes organizations off what lies past the
  -- position, so there are fewer of these than rounds
  induction n generalizing f with
  | zero => omega
  | succ n ih =>
    -- what is found in this batch comes first of all that is found
    have hsplit : f.found ++ (sel.rest listing f).filter (fun o => allow o.basic) =
        (sel.next allow listing f).found ++
          ((sel.rest listing f).drop sel.batchSize).filter fun o => allow o.basic := by
      unfold Selection.next Selection.batch
      rw [List.append_assoc, ← List.filter_append, List.take_append_drop]
    rw [Action.run_rounds_succ, run_fillRound hs hlists f, hsplit]
    by_cases hfull : sel.window.limit < (sel.next allow listing f).found.length
    · -- the page is full, whatever follows
      have hlen : sel.window.limit <
          ((sel.next allow listing f).found.take (sel.window.limit + 1)).length := by
        rw [List.length_take]
        omega
      rw [if_pos (by rw [Bool.or_eq_true]; exact .inr (decide_eq_true hlen)),
        List.take_append_of_le_length hfull]
    · rw [List.take_of_length_le (Nat.le_succ_of_le (Nat.le_of_not_lt hfull))]
      by_cases hshort : (sel.batch listing f).length < sel.batchSize
      · -- the listing ends with this batch
        have hall : (sel.rest listing f).drop sel.batchSize = [] := by
          rw [Selection.batch, List.length_take] at hshort
          rw [List.drop_eq_nil_iff]
          omega
        rw [if_pos (by simp [hshort]), hall, List.filter_nil, List.append_nil,
          List.take_of_length_le (Nat.le_succ_of_le (Nat.le_of_not_lt hfull))]
      · have hne : sel.batch listing f ≠ [] := by
          intro hnil
          rw [hnil, List.length_nil] at hshort
          omega
        have hrest : sel.rest listing (sel.next allow listing f) =
            (sel.rest listing f).drop sel.batchSize := rest_next hlists.sorted f
        rw [if_neg (by simp [hshort, hfull]), ← hrest]
        refine ih ?_ (Nat.le_of_not_lt hfull)
        have hpos : 0 < (sel.rest listing f).length :=
          List.length_pos_iff.2 (List.ne_nil_of_mem (List.mem_of_mem_take (List.getLast_mem hne)))
        rw [hrest, List.length_drop]
        omega

/-- What fills a page: the first organizations past its origin that may be seen, one more than it
holds if there are so many. -/
theorem run_fill (hs : s.store.Consistent) (hbatch : sel.batchSize ≠ 0)
    (hlists : s.store.Lists sel.scope sel.passes sel.window.key sel.window.readingOrder listing) :
    (fill sel allow).run setting.still s =
      (.ok (((listing.filter (sel.past sel.window.origin)).filter fun o => allow o.basic).take
        (sel.window.limit + 1)), s) := by
  rw [fill, Action.run_iterate, run_fill_rounds hs hbatch hlists ?_ (Nat.zero_le _)]
  · rfl
  · -- there are no more organizations to list than records, and one more round than records
    have hpart : (listing.filter (sel.past sel.window.origin)).length ≤ listing.length :=
      List.length_filter_le ..
    have hsize := hlists.length_le_size
    show (listing.filter (sel.past sel.window.origin)).length < s.store.organizations.size + 1
    omega

end OrgForest.Directory
