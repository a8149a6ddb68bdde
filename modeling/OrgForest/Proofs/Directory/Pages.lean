import OrgForest.Proofs.Directory.Filling
import OrgForest.Proofs.Directory.History
import OrgForest.Proofs.Listing.Slice
import OrgForest.Proofs.Listing.Token

/-!
# Pages are slices

Over a store that nobody changes meanwhile a page is a slice of the listing of all that the caller
asks for and may see. How it is put together from batches does not show.

* `Directory.cursor_direction` — a cursor goes the way that its query says;
* `Directory.run_list`, `Directory.run_list_inBatchesOf` — what a request for a page comes to, in
  batches of any size;
* `Directory.list_slices` — the page is the slice, whatever the size of the batches.
-/

namespace OrgForest

/-- What a configuration without fault is like. -/
theorem Config.fault?_eq_none {c : Config} : c.fault? = none ↔
    (c.defaultPageLimit ≠ 0 ∧ c.maxPageLimit ≠ 0) ∧ c.defaultPageLimit ≤ c.maxPageLimit ∧
      c.cursorSecret ≠ "" ∧ c.maxNameLength ≠ 0 ∧ c.walkRetryLimit ≠ 0 ∧ c.scanBatchSize ≠ 0 := by
  unfold fault?
  rw [← not_or, ← Nat.not_lt]
  constructor
  · intro h
    repeat' (split at h; · cases h)
    exact ⟨‹_›, ‹_›, ‹_›, ‹_›, ‹_›, ‹_›⟩
  · rintro ⟨hlimits, horder, hsecret, hname, hwalk, hbatch⟩
    rw [if_neg hlimits, if_neg horder, if_neg hsecret, if_neg hname, if_neg hwalk, if_neg hbatch]

namespace Directory

variable {d : Directory} {setting : Setting} {s : Surroundings} {room : Nat → Bool}
  {caller : Caller} {q : ListingQuery} {allow : BasicOrganization → Bool}

/-! ## Requests -/

theorem pageSize_ne_zero {limit : Nat} (h : d.pageSize q.limit = .ok limit) : limit ≠ 0 := by
  obtain ⟨⟨hdefault, hmax⟩, -⟩ := Config.fault?_eq_none.1 d.sound
  rcases hq : q.limit with _ | _ | n <;> rw [hq] at h <;> cases h
  · exact hdefault
  · omega

theorem scanBatchSize_ne_zero (d : Directory) : d.config.scanBatchSize ≠ 0 :=
  (Config.fault?_eq_none.1 d.sound).2.2.2.2.2

/-- The directory that scans in batches of another size. -/
def inBatchesOf (d : Directory) (n : Nat) (hn : n ≠ 0) : Directory where
  config := { d.config with scanBatchSize := n }
  sound := by
    obtain ⟨hlimits, horder, hsecret, hname, hwalk, -⟩ := Config.fault?_eq_none.1 d.sound
    exact Config.fault?_eq_none.2 ⟨hlimits, horder, hsecret, hname, hwalk, hn⟩

/-- The cursor of a token that is accepted has been made for what is asked. -/
theorem made_for_of_decoded {secret token : String} {key : SortKey} {order : SortOrder}
    {direction : Direction} {c : Cursor}
    (h : (match Cursor.decode secret token key order direction with
      | .ok c => (.ok (some c) : Except BadRequest (Option Cursor))
      | .error fault => .error (.cursor fault)) = .ok (some c)) :
    c.key = key ∧ c.order = order ∧ c.direction = direction := by
  split at h
  · next c' hc' =>
    obtain rfl : c' = c := Option.some.inj (Except.ok.inj h)
    exact Cursor.decode_made_for hc'
  · cases h

/-- A cursor goes the way that its query says, through the listing that the query is about. -/
theorem cursor_direction {c : Cursor} (h : d.cursor q = .ok (some c)) :
    (c.key = q.key ∧ c.order = q.order) ∧
      (c.direction = .after ∧ q.after.isSome ∧ q.before = none ∨
        c.direction = .before ∧ q.before.isSome ∧ q.after = none) := by
  -- at most one token is given, and it is decoded for the side on which it is given
  unfold cursor at h
  cases hafter : q.after with
  | none =>
    cases hbefore : q.before with
    | none =>
      rw [hafter, hbefore] at h
      cases h
    | some token =>
      rw [hafter, hbefore] at h
      obtain ⟨hkey, horder, hdirection⟩ := made_for_of_decoded h
      exact ⟨⟨hkey, horder⟩, .inr ⟨hdirection, rfl, rfl⟩⟩
  | some token =>
    cases hbefore : q.before with
    | some token' =>
      rw [hafter, hbefore] at h
      cases h
    | none =>
      rw [hafter, hbefore] at h
      obtain ⟨hkey, horder, hdirection⟩ := made_for_of_decoded h
      exact ⟨⟨hkey, horder⟩, .inl ⟨hdirection, rfl, rfl⟩⟩

/-- What the listing of a caller covers. -/
def scopeOf (caller : Caller) (recursive : Bool) : Scope :=
  match caller.acting with
  | none => if recursive then .all else .roots
  | some acting => if recursive then .descendantsOf acting else .childrenOf acting

/-- The organization for which a caller acts, if for any, is there. -/
def Stands (s : Store) (caller : Caller) : Prop :=
  ∀ acting, caller.acting = some acting → s.organizations.contains acting = true

theorem run_scope (h : Stands s.store caller) (recursive : Bool) :
    (scope caller recursive).run setting.still s = (.ok (scopeOf caller recursive), s) := by
  unfold scope scopeOf
  cases hacting : caller.acting with
  | none => rfl
  | some acting =>
    dsimp only
    rw [Action.run_bind, run_requireExists, if_pos (h acting hacting)]
    rfl

theorem run_scope_of_unknown {acting : String} (hacting : caller.acting = some acting)
    (h : s.store.organizations.contains acting = false) (recursive : Bool) :
    (scope caller recursive).run setting.still s =
      (.error (.notFound (.organization acting)), s) := by
  unfold scope
  rw [hacting]
  dsimp only
  rw [Action.run_bind, run_requireExists, if_neg (by simp [h])]

/-! ## Pages -/

/-- A request that is in order is served. -/
theorem run_list_checked {σ : Type} {env : Environment σ} {t : σ} {limit : Nat}
    {filter : Option Filter} {cursor : Option Cursor} (hlimit : d.pageSize q.limit = .ok limit)
    (hfilter : Filter.parseGiven q.filter = .ok filter) (hcursor : d.cursor q = .ok cursor) :
    let window : PageWindow := ⟨limit, q.key, q.order, cursor⟩
    (d.list room caller q allow).run env t = Action.run env (do
      let scope ← scope caller q.recursive
      if room (limit + 1) then
        let found ← fill ⟨scope, filter, window, d.config.scanBatchSize⟩ allow
        return some ((window.pageOf d.config.cursorSecret found).map Organization.basic)
      else return none) t := by
  unfold list
  rw [hlimit, hfilter, hcursor]
  rfl

/-- A request that is in order and finds room is answered with what fills the page. -/
theorem run_list_filled {σ : Type} {env : Environment σ} {t u v : σ} {limit : Nat}
    {filter : Option Filter} {cursor : Option Cursor} {covered : Scope}
    {found : List Organization} (hlimit : d.pageSize q.limit = .ok limit)
    (hfilter : Filter.parseGiven q.filter = .ok filter) (hcursor : d.cursor q = .ok cursor)
    (hroom : room (limit + 1) = true) :
    let window : PageWindow := ⟨limit, q.key, q.order, cursor⟩
    (scope caller q.recursive).run env t = (.ok covered, u) →
      (fill ⟨covered, filter, window, d.config.scanBatchSize⟩ allow).run env u = (.ok found, v) →
        (d.list room caller q allow).run env t =
          (.ok (some ((window.pageOf d.config.cursorSecret found).map (·.basic))), v) := by
  intro window hscope hfill
  rw [run_list_checked hlimit hfilter hcursor, Action.run_bind, hscope]
  dsimp only
  rw [if_pos hroom, Action.run_bind, hfill]
  rfl

/-- What a request for a page comes to, once it is in order. -/
theorem run_list (hs : s.store.Consistent) {limit : Nat} {filter : Option Filter}
    {cursor : Option Cursor} (hlimit : d.pageSize q.limit = .ok limit)
    (hfilter : Filter.parseGiven q.filter = .ok filter) (hcursor : d.cursor q = .ok cursor)
    (hstands : Stands s.store caller) (hroom : room (limit + 1) = true)
    {listing : List Organization}
    (hlists : s.store.Lists (scopeOf caller q.recursive)
      (fun o => filter.all (·.holds o) && allow o.basic) q.key q.order listing) :
    let window : PageWindow := ⟨limit, q.key, q.order, cursor⟩
    (d.list room caller q allow).run setting.still s =
      (.ok (some ((window.pageOf d.config.cursorSecret
        ((window.reading (window.candidates listing)).take (limit + 1))).map (·.basic))), s) := by
  intro window
  let sel : Selection := ⟨scopeOf caller q.recursive, filter, window, d.config.scanBatchSize⟩
  -- the listing of all that passes, whether it may be seen or not
  obtain ⟨all, hall⟩ := hs.exists_lists sel.scope sel.passes q.key q.order
  obtain rfl : all.filter (fun o => allow o.basic) = listing := (hall.filter _).unique hlists
  have hread : s.store.Lists sel.scope sel.passes window.key window.readingOrder
      (window.reading all) := by
    unfold PageWindow.readingOrder PageWindow.reading
    split
    · exact hall.reverse
    · exact hall
  have hfill : (fill sel allow).run setting.still s =
      (.ok ((window.reading (window.candidates (all.filter fun o => allow o.basic))).take
        (limit + 1)), s) := by
    rw [run_fill hs d.scanBatchSize_ne_zero hread, PageWindow.candidates_filter]
    rw [← PageWindow.reading_filter, ← PageWindow.reading_candidates]
    rfl
  exact run_list_filled hlimit hfilter hcursor hroom (run_scope hstands q.recursive) hfill

/-- A page for which there is no room is not filled. -/
theorem run_list_without_room {limit : Nat} {filter : Option Filter} {cursor : Option Cursor}
    (hlimit : d.pageSize q.limit = .ok limit)
    (hfilter : Filter.parseGiven q.filter = .ok filter) (hcursor : d.cursor q = .ok cursor)
    (hstands : Stands s.store caller) (hroom : room (limit + 1) = false) :
    (d.list room caller q allow).run setting.still s = (.ok none, s) := by
  rw [run_list_checked hlimit hfilter hcursor, Action.run_bind, run_scope hstands, hroom]
  rfl

theorem run_list_of_unknown {limit : Nat} {filter : Option Filter} {cursor : Option Cursor}
    (hlimit : d.pageSize q.limit = .ok limit)
    (hfilter : Filter.parseGiven q.filter = .ok filter) (hcursor : d.cursor q = .ok cursor)
    {acting : String} (hacting : caller.acting = some acting)
    (h : s.store.organizations.contains acting = false) :
    (d.list room caller q allow).run setting.still s =
      (.error (.notFound (.organization acting)), s) := by
  rw [run_list_checked hlimit hfilter hcursor, Action.run_bind, run_scope_of_unknown hacting h]

/-- The size of the batches makes no difference. -/
theorem run_list_inBatchesOf (hs : s.store.Consistent) {n : Nat} (hn : n ≠ 0) {limit : Nat}
    {filter : Option Filter} {cursor : Option Cursor} (hlimit : d.pageSize q.limit = .ok limit)
    (hfilter : Filter.parseGiven q.filter = .ok filter) (hcursor : d.cursor q = .ok cursor) :
    ((d.inBatchesOf n hn).list room caller q allow).run setting.still s =
      (d.list room caller q allow).run setting.still s := by
  have hlimit' : (d.inBatchesOf n hn).pageSize q.limit = .ok limit := hlimit
  have hcursor' : (d.inBatchesOf n hn).cursor q = .ok cursor := hcursor
  -- both show the slice of one listing, or find no room, or are told that nobody is there
  by_cases hstands : Stands s.store caller
  · cases hroom : room (limit + 1) with
    | true =>
      obtain ⟨listing, hlists⟩ := hs.exists_lists (scopeOf caller q.recursive)
        (fun o => filter.all (·.holds o) && allow o.basic) q.key q.order
      rw [run_list hs hlimit hfilter hcursor hstands hroom hlists,
        run_list hs hlimit' hfilter hcursor' hstands hroom hlists]
      rfl
    | false =>
      rw [run_list_without_room hlimit hfilter hcursor hstands hroom,
        run_list_without_room hlimit' hfilter hcursor' hstands hroom]
  · unfold Stands at hstands
    rw [Classical.not_forall] at hstands
    obtain ⟨acting, hstands⟩ := hstands
    rw [Classical.not_imp, Bool.not_eq_true] at hstands
    obtain ⟨hacting, hmissing⟩ := hstands
    rw [run_list_of_unknown hlimit hfilter hcursor hacting hmissing,
      run_list_of_unknown hlimit' hfilter hcursor' hacting hmissing]

/-- A query that comes back with the token of a position asks for what comes behind the position as
it is read. -/
theorem cursor_of_token (d : Directory) (hbefore : q.before = none) (limit : Option Nat)
    (p : Position) :
    let token := (Cursor.new q.key q.order .after p).encode d.config.cursorSecret
    d.cursor { q with after := some token, limit } =
      .ok (some (Cursor.new q.key q.order .after p.asRead)) := by
  intro token
  unfold cursor
  rw [hbefore]
  dsimp only
  rw [Cursor.decode_encode]

/-- **Pages are slices of the listing.** Whatever a store holds, a request that is in order is
answered with the slice of the listing that it asks for: of all organizations that the caller's
scope covers, that pass the filter and that may be seen, strictly sorted, the first ones, the first
ones past the position of an `after` cursor, or the last ones before that of a `before` cursor. The
size of the batches makes no difference. Who acts for an organization that is not there is told
so. Only if there is no room for a page of that size and one organization more, there is no answer.

The tokens of a page are made from the positions of its first and its last organization, and come
back as these positions are read, which is unchanged unless they are of a leap second within a
minute. -/
theorem list_slices (d : Directory) (room : Nat → Bool) (setting : Setting) {s : Surroundings}
    (hs : s.store.Consistent) (caller : Caller) {q : ListingQuery}
    (allow : BasicOrganization → Bool) {limit : Nat} {filter : Option Filter}
    {cursor : Option Cursor} (hlimit : d.pageSize q.limit = .ok limit)
    (hfilter : Filter.parseGiven q.filter = .ok filter) (hcursor : d.cursor q = .ok cursor) :
    let answer (d : Directory) :=
      ((d.list room caller q allow).run setting.undisturbed.environment s.next).1
    let window : PageWindow := ⟨limit, q.key, q.order, cursor⟩
    (∀ c, cursor = some c → (c.key = q.key ∧ c.order = q.order) ∧
      (c.direction = .after ∧ q.after.isSome ∧ q.before = none ∨
        c.direction = .before ∧ q.before.isSome ∧ q.after = none)) ∧
    (Stands s.store caller → room (limit + 1) = true → ∃ listing page,
      s.store.Lists (scopeOf caller q.recursive)
        (fun o => filter.all (·.holds o) && allow o.basic) q.key q.order listing ∧
      answer d = .ok (some page) ∧ window.Shows d.config.cursorSecret listing page) ∧
    (∀ direction o,
      Cursor.decode d.config.cursorSecret (window.token d.config.cursorSecret direction o)
        q.key q.order direction = .ok (.new q.key q.order direction (Position.of q.key o).asRead) ∧
      ((Position.of q.key o).asRead = Position.of q.key o ↔ (Position.of q.key o).Legible)) ∧
    (Stands s.store caller → room (limit + 1) = false → answer d = .ok none) ∧
    (∀ acting, caller.acting = some acting → s.store.organizations.contains acting = false →
      answer d = .error (.notFound (.organization acting))) ∧
    ∀ n (hn : n ≠ 0), answer (d.inBatchesOf n hn) = answer d := by
  intro answer window
  have hnext : s.next.store.Consistent := hs
  have hstill (d : Directory) :
      answer d = ((d.list room caller q allow).run setting.still s.next).1 :=
    (setting.run_undisturbed _ s).1
  -- the listing is that of the store as it stands; nobody else changes it during the call
  obtain ⟨listing, hlists⟩ := hnext.exists_lists (scopeOf caller q.recursive)
    (fun o => filter.all (·.holds o) && allow o.basic) q.key q.order
  refine ⟨?_, fun hstands hroom => ?_, fun direction o => ⟨Cursor.decode_encode .., ?_⟩,
    fun hstands hroom => ?_, fun acting hacting hmissing => ?_, fun n hn => ?_⟩
  · rintro c rfl
    exact cursor_direction hcursor
  · refine ⟨listing, _, hlists, ?_, PageWindow.shows_pageOf (pageSize_ne_zero hlimit) _⟩
    rw [hstill, run_list hnext hlimit hfilter hcursor hstands hroom hlists]
  · exact Position.asRead_eq_self
  · rw [hstill, run_list_without_room (s := s.next) hlimit hfilter hcursor hstands hroom]
  · rw [hstill, run_list_of_unknown (s := s.next) hlimit hfilter hcursor hacting hmissing]
  · rw [hstill, hstill, run_list_inBatchesOf hnext hn hlimit hfilter hcursor]

/-- A root with three children. -/
def siblings : List StoreChange :=
  let child (id name : String) : Organization :=
    { Organization.new .epoch name with id, parentId := some "root" }
  [.insert { Organization.new .epoch "Root" with id := "root" } ⟨"root", "root.example", 1⟩,
    .insert (child "a" "Ann") ⟨"a", "a.example", 2⟩,
    .insert (child "b" "Bob") ⟨"b", "b.example", 3⟩,
    .insert (child "c" "Cid") ⟨"c", "c.example", 4⟩]

/-- The first of them from the end of the alphabet that is not called Bob. -/
def lastButBob : ListingQuery :=
  { ListingQuery.new with
    limit := some 1, key := .name, order := .descending, filter := some "name ne Bob" }

theorem list_slices_siblings :
    let s : Surroundings := ⟨Store.after siblings, 5, 0, []⟩
    let filter : Filter := ⟨[.compareText .name .notEqual "Bob"], "name ne Bob"⟩
    let caller : Caller := .onBehalfOf "request" "root"
    s.store.Consistent ∧ standard.pageSize lastButBob.limit = .ok 1 ∧
      Filter.parseGiven lastButBob.filter = .ok (some filter) ∧
      standard.cursor lastButBob = .ok none ∧ Stands s.store caller ∧ addressable 2 = true ∧
      ∃ listing page,
        s.store.Lists (.childrenOf "root")
          (fun o => (some filter).all (·.holds o) && o.basic.status == .active)
          .name .descending listing ∧
        ((standard.list addressable caller lastButBob (·.status == .active)).run
          Setting.plain.undisturbed.environment s.next).1 = .ok (some page) ∧
        (⟨1, .name, .descending, none⟩ : PageWindow).Shows "secret" listing page := by
  intro s filter caller
  have hs : s.store.Consistent := .after siblings
  have hfilter : Filter.parseGiven lastButBob.filter = .ok (some filter) := by rfl
  have hstands : Stands s.store caller := by
    rintro acting ⟨⟩
    decide +kernel
  have hlimit : standard.pageSize lastButBob.limit = .ok 1 := rfl
  have hcursor : standard.cursor lastButBob = .ok none := rfl
  have hroom : addressable 2 = true := by decide
  exact ⟨hs, hlimit, hfilter, hcursor, hstands, hroom,
    (list_slices standard addressable .plain hs caller (·.status == .active) hlimit hfilter
      hcursor).2.1 hstands hroom⟩

/-! ## Pages that are no slices -/

/-- A directory that leaves the size of a page to the caller. -/
def boundless : Directory where
  config := { Config.standard "secret" with maxPageLimit := UInt64.size - 1 }
  sound := by decide

/-- An organization of a leap second within a minute. -/
def noon : Organization := { Organization.new .withinMinute "Noon" with id := "noon" }

/-- An organization that comes behind it, but not behind the one that it is read as. -/
def later : Organization := { Organization.new .afterwards "Later" with id := "later" }

/-- The two of them, as roots. -/
def noonAndLater : List StoreChange :=
  [.insert noon ⟨"noon", "noon.example", 1⟩, .insert later ⟨"later", "later.example", 2⟩]

/-- What comes behind the first of them. -/
def behindNoon : ListingQuery :=
  let token := (Cursor.new .created .ascending .after (.of .created noon)).encode "secret"
  { ListingQuery.new with after := some token }

/-- Almost every page that may be asked for is too large to be answered, and what comes behind a leap
second within a minute is not shown on the page behind it. -/
theorem page_no_slice :
    let s : Surroundings := ⟨Store.after noonAndLater, 3, 0, []⟩
    let caller : Caller := .new "request"
    let answer (d : Directory) (q : ListingQuery) : Except OrganizationError _ :=
      ((d.list addressable caller q fun _ => true).run
        Setting.plain.undisturbed.environment s.next).1
    answer boundless { ListingQuery.new with limit := some (UInt64.size - 2) } = .ok none ∧
      s.store.Holds later.asFirst ∧
      later.standsPast (.of .created noon) .created .ascending = true ∧
      answer standard behindNoon = .ok (some .empty) := by
  intro s caller answer
  refine ⟨?_, by decide +kernel, by decide, ?_⟩
  · exact toOption_eq_some.1 (by decide +kernel)
  · -- the token is read as that of the second after noon
    have hcursor : standard.cursor behindNoon =
        .ok (some (Cursor.new .created .ascending .after (Position.of .created noon).asRead)) :=
      cursor_of_token (q := ListingQuery.new) standard rfl none (.of .created noon)
    have hlimit : standard.pageSize behindNoon.limit = .ok 15 := rfl
    have hrun : answer standard behindNoon = _ :=
      congrArg Prod.fst (run_list_checked hlimit rfl hcursor)
    rw [hrun]
    exact toOption_eq_some.1 (by decide +kernel)

end Directory

end OrgForest
