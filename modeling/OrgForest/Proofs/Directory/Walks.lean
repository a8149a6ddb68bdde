import OrgForest.Proofs.Directory.Interleaved
import OrgForest.Proofs.Directory.Pages

/-!
# Walks through a changing store

A walk asks for a page, then for the page after its last organization, and so on until there is no
more. Between any two calls others may change the store, so no two pages need show the same listing.
All that is carried over from page to page is the position in the token. That is enough where the
position can be told from the token: each page is a stretch of the walk that ends where the next one
starts, and stretches add up.

* `Directory.Stretch`, `Directory.Stretch.append` — part of a walk, from one position to another;
* `Directory.list_ends` — whatever others do, the listing of a page ends by its own exit;
* `Directory.page_stretch` — a page is one, and the token carries its end;
* `Directory.Walk`, `Directory.Traceable` — walks, and those that lose no position;
* `Directory.exists_walk` — a walk through the forest comes to its end;
* `Directory.walk_complete` — walks repeat nothing and skip nothing that stays.
-/

namespace OrgForest

/-- The position of an organization as a listing shows it. -/
def BasicOrganization.position (key : SortKey) (b : BasicOrganization) : Position :=
  match key with
  | .created => ⟨.created b.created, b.id⟩
  | .name => ⟨.name b.name, b.id⟩

@[simp] theorem BasicOrganization.position_basic (key : SortKey) (o : Organization) :
    o.basic.position key = .of key o := by
  cases key <;> rfl

namespace Directory

variable {shown : Store → Organization → Prop} {key : SortKey} {order : SortOrder}
  {origin : Option Position} {past past' : List Moment}

/-! ## Stretches -/

/-- Part of a walk, with the moments in which it was made. It starts behind its origin, and stops at
a position, or nowhere if it goes to the end of the listing. -/
structure Stretch (shown : Store → Organization → Prop) (key : SortKey) (order : SortOrder)
    (origin : Option Position) (past : List Moment) (items : List BasicOrganization)
    (stop : Option Position) : Prop where
  sorted : items.Pairwise fun a b => order.Lt (a.position key) (b.position key)
  beyond : ∀ b ∈ items, order.Beyond origin (b.position key)
  seen : ∀ b ∈ items, ∃ m ∈ past, ∃ o, shown m.store o ∧ o.basic = b
  upto : ∀ b ∈ items, ∀ q, stop = some q → b.position key = q ∨ order.Lt (b.position key) q
  reached : ∀ q, stop = some q → ∃ b ∈ items, b.position key = q
  /-- What stays where it is is met, or it comes behind the stop. -/
  complete : ∀ p, Stays shown key past p → order.Beyond origin p →
    (∃ b ∈ items, b.position key = p) ∨ ∃ q, stop = some q ∧ order.Lt q p

theorem Stays.earlier {p : Position} (h : Stays shown key past' p) (hpast : past ⊆ past') :
    Stays shown key past p :=
  fun m hm => h m (hpast hm)

theorem Stretch.onward {items : List BasicOrganization} {stop : Option Position}
    (h : Stretch shown key order origin past items stop) {q : Position} (hq : stop = some q) :
    order.Beyond origin q := by
  obtain ⟨b, hb, rfl⟩ := h.reached q hq
  exact h.beyond b hb

/-- A stretch that starts where another one stops continues it. -/
theorem Stretch.append {items items' : List BasicOrganization} {q : Position}
    {stop : Option Position} (h : Stretch shown key order origin past items (some q))
    (h' : Stretch shown key order (some q) past' items' stop) :
    Stretch shown key order origin (past ++ past') (items ++ items') stop where
  sorted := by
    -- all of the first part lies up to the stop, all of the second behind it
    refine List.pairwise_append.2 ⟨h.sorted, h'.sorted, fun a ha b hb => ?_⟩
    exact SortOrder.lt_of_eq_or_lt (h.upto a ha q rfl) (h'.beyond b hb q rfl)
  beyond b hb := by
    rcases List.mem_append.1 hb with hb | hb
    · exact h.beyond b hb
    · exact (h.onward rfl).trans (h'.beyond b hb q rfl)
  seen b hb := by
    rcases List.mem_append.1 hb with hb | hb
    · obtain ⟨m, hm, hseen⟩ := h.seen b hb
      exact ⟨m, List.mem_append_left _ hm, hseen⟩
    · obtain ⟨m, hm, hseen⟩ := h'.seen b hb
      exact ⟨m, List.mem_append_right _ hm, hseen⟩
  upto b hb q' hq' := by
    rcases List.mem_append.1 hb with hb | hb
    · -- the second part goes further than the first
      exact .inr (SortOrder.lt_of_eq_or_lt (h.upto b hb q rfl) (h'.onward hq' q rfl))
    · exact h'.upto b hb q' hq'
  reached q' hq' := by
    obtain ⟨b, hb, hat⟩ := h'.reached q' hq'
    exact ⟨b, List.mem_append_right _ hb, hat⟩
  complete p hp horigin := by
    rcases h.complete p (hp.earlier (List.subset_append_left ..)) horigin with
      ⟨b, hb, hat⟩ | ⟨_, ⟨⟩, hbehind⟩
    · exact .inl ⟨b, List.mem_append_left _ hb, hat⟩
    · -- not met in the first part, so it is there to be met in the second
      have horigin' : order.Beyond (some q) p := by
        rintro _ ⟨⟩
        exact hbehind
      refine (h'.complete p (hp.earlier (List.subset_append_right ..)) horigin').imp_left ?_
      rintro ⟨b, hb, hat⟩
      exact ⟨b, List.mem_append_right _ hb, hat⟩

/-! ## A page as a stretch -/

section Page

variable {sel : Selection} {allow : BasicOrganization → Bool} {found : List Organization}

/-- What a page holds of what fills it is a stretch in the order of reading. -/
theorem Filled.stretch (h : Filled sel allow past found) (hlimit : sel.window.limit ≠ 0) :
    Stretch (sel.shown allow) sel.window.key sel.window.readingOrder sel.window.origin past
      ((found.take sel.window.limit).map (·.basic)) (sel.window.stop found) where
  sorted := by
    rw [List.pairwise_map]
    simp only [BasicOrganization.position_basic]
    exact h.sorted.sublist (List.take_sublist ..)
  beyond b hb := by
    obtain ⟨o, ho, rfl⟩ := List.mem_map.1 hb
    rw [BasicOrganization.position_basic]
    exact h.beyond o (List.mem_of_mem_take ho)
  seen b hb := by
    obtain ⟨o, ho, rfl⟩ := List.mem_map.1 hb
    obtain ⟨m, hm, hshown⟩ := h.seen o (List.mem_of_mem_take ho)
    exact ⟨m, hm, o, hshown, rfl⟩
  upto b hb q hq := by
    obtain ⟨o, ho, rfl⟩ := List.mem_map.1 hb
    obtain ⟨-, last, hlast, rfl⟩ := PageWindow.stop_eq_some hq
    rw [BasicOrganization.position_basic]
    exact Sorted.le_last (h.sorted.sublist (List.take_sublist ..)) hlast ho
  reached q hq := by
    obtain ⟨-, last, hlast, rfl⟩ := PageWindow.stop_eq_some hq
    exact ⟨last.basic, List.mem_map_of_mem (List.mem_of_getLast? hlast),
      BasicOrganization.position_basic ..⟩
  complete p hp horigin := by
    rcases h.complete p hp horigin with ⟨o, ho, rfl⟩ | ⟨hmore, hbehind⟩
    · exact .inl ⟨o.basic, List.mem_map_of_mem ho, BasicOrganization.position_basic ..⟩
    · -- a page that leaves something over is not empty, and stops at its last organization
      right
      have hne : found.take sel.window.limit ≠ [] := by
        rw [← List.length_pos_iff, List.length_take]
        omega
      refine ⟨.of sel.window.key ((found.take sel.window.limit).getLast hne), ?_,
        hbehind _ (List.getLast_mem hne)⟩
      rw [PageWindow.stop, if_pos hmore, List.getLast?_eq_some_getLast hne]
      rfl

end Page

/-! ## Requests in disturbed surroundings -/

variable {d : Directory} {room : Nat → Bool} {caller : Caller} {q : ListingQuery}
  {allow : BasicOrganization → Bool} {s t : Disturbed}

theorem readOnly_scope (caller : Caller) (recursive : Bool) :
    (scope caller recursive).ReadOnly := by
  unfold scope
  cases caller.acting with
  | none => exact Action.readOnly_pure _
  | some acting =>
    refine Action.ReadOnly.bind ?_ fun _ => Action.readOnly_pure _
    refine (Action.readOnly_call rfl).bind fun there => ?_
    cases there with
    | true => exact Action.readOnly_pure _
    | false => exact Action.readOnly_throw _

theorem run_requireExists_disturbed (s : Disturbed) (id : String) :
    (requireExists id).run Disturbed.environment s =
      (if s.interrupted.store.organizations.contains id then .ok ()
        else .error (.notFound (.organization id)), s.interrupted.happen (.own (.exists id))) := by
  rw [requireExists, Action.run_bind, Action.run_call]
  show Action.run _ (if s.interrupted.store.organizations.contains id then _ else _) _ = _
  split <;> rfl

/-- The scope is settled, or the organization for which the caller acts is not there. -/
theorem run_scope_disturbed (s : Disturbed) (caller : Caller) (recursive : Bool) :
    ((scope caller recursive).run Disturbed.environment s).1 = .ok (scopeOf caller recursive) ∨
      ∃ acting, caller.acting = some acting ∧
        ((scope caller recursive).run Disturbed.environment s).1 =
          .error (.notFound (.organization acting)) := by
  unfold scope scopeOf
  cases caller.acting with
  | none => exact .inl rfl
  | some acting =>
    dsimp only
    rw [Action.run_bind, run_requireExists_disturbed]
    by_cases there : s.interrupted.store.organizations.contains acting = true
    · rw [if_pos there]
      exact .inl rfl
    · rw [if_neg there]
      exact .inr ⟨acting, rfl, rfl⟩

/-- A request that is served is in order. -/
theorem list_in_order {σ : Type} {env : Environment σ} {s t : σ}
    {answer : Option (Page BasicOrganization)}
    (h : (d.list room caller q allow).run env s = (.ok answer, t)) :
    ∃ limit filter cursor, d.pageSize q.limit = .ok limit ∧
      Filter.parseGiven q.filter = .ok filter ∧ d.cursor q = .ok cursor := by
  unfold list at h
  rcases hlimit : d.pageSize q.limit with fault | limit
  · rw [hlimit] at h
    cases h
  · rcases hfilter : Filter.parseGiven q.filter with fault | filter
    · rw [hlimit, hfilter] at h
      cases h
    · rcases hcursor : d.cursor q with fault | cursor
      · rw [hlimit, hfilter, hcursor] at h
        cases h
      · exact ⟨limit, filter, cursor, rfl, rfl, rfl⟩

/-- Whatever others do, a request that is in order is answered with a page, made of what a listing
shows meanwhile, unless there is no room for it, or the organization for which the caller acts is not
there. -/
theorem run_list_disturbed (hs : s.store.Consistent) (room : Nat → Bool) (caller : Caller)
    (allow : BasicOrganization → Bool) {limit : Nat} {filter : Option Filter}
    {cursor : Option Cursor} (hlimit : d.pageSize q.limit = .ok limit)
    (hfilter : Filter.parseGiven q.filter = .ok filter) (hcursor : d.cursor q = .ok cursor) :
    let sel : Selection := ⟨scopeOf caller q.recursive, filter, ⟨limit, q.key, q.order, cursor⟩,
      d.config.scanBatchSize⟩
    ∃ outcome t new, (d.list room caller q allow).run Disturbed.environment s = (outcome, t) ∧
      s.Watches new t ∧
      ((∃ found, outcome =
          .ok (some ((sel.window.pageOf d.config.cursorSecret found).map (·.basic))) ∧
          Filled sel allow new found) ∨
        (outcome = .ok none ∧ room (limit + 1) = false) ∨
        ∃ acting, caller.acting = some acting ∧
          outcome = .error (.notFound (.organization acting))) := by
  intro sel
  obtain ⟨before, hbefore⟩ := (readOnly_scope caller q.recursive).watches s
  have hscope := run_scope_disturbed s caller q.recursive
  rcases hrun : (scope caller q.recursive).run Disturbed.environment s with ⟨outcome, m⟩
  rw [hrun] at hbefore hscope
  -- others may delete the organization for which the caller acts just before it is looked up
  rcases hscope with ⟨⟨⟩⟩ | ⟨acting, hacting, ⟨⟩⟩
  · cases hroom : room (limit + 1) with
    | true =>
      obtain ⟨found, t, new, hfill, hwatches, hfilled⟩ :=
        run_fill_disturbed (hbefore.consistent hs) sel d.scanBatchSize_ne_zero allow
      exact ⟨_, t, before ++ new, run_list_filled hlimit hfilter hcursor hroom hrun hfill,
        hbefore.trans hwatches, .inl ⟨found, rfl, hfilled.later (List.subset_append_right ..)⟩⟩
    | false =>
      refine ⟨.ok none, m, before, ?_, hbefore, .inr (.inl ⟨rfl, rfl⟩)⟩
      rw [run_list_checked hlimit hfilter hcursor, Action.run_bind, hrun, hroom]
      rfl
  · refine ⟨.error _, m, before, ?_, hbefore, .inr (.inr ⟨acting, hacting, rfl⟩)⟩
    rw [run_list_checked hlimit hfilter hcursor, Action.run_bind, hrun]

theorem ends_check {α : Type} (outcome : Except BadRequest α) : (Action.check outcome).Ends := by
  cases outcome with
  | ok a => exact Action.ends_pure a
  | error fault =>
    intro s _ n h
    cases h

/-- Whatever others do, a request for a page is never cut off. -/
theorem list_ends (d : Directory) (room : Nat → Bool) (caller : Caller) (q : ListingQuery)
    (allow : BasicOrganization → Bool) : (d.list room caller q allow).Ends := by
  have hscope : (scope caller q.recursive).Ends := by
    intro s _ n hcut
    rcases run_scope_disturbed s caller q.recursive with h | ⟨acting, -, h⟩
    · rw [h] at hcut
      cases hcut
    · rw [h] at hcut
      cases hcut
  have hfill (sel : Selection) (hbatch : sel.batchSize ≠ 0) : (fill sel allow).Ends := by
    intro s hs n hcut
    obtain ⟨found, t, new, hrun, -, -⟩ := run_fill_disturbed hs sel hbatch allow
    rw [hrun] at hcut
    cases hcut
  unfold list
  refine (ends_check _).bind fun limit => (ends_check _).bind fun filter => ?_
  refine (ends_check _).bind fun cursor => hscope.bind fun scope => ?_
  split
  · exact (hfill _ d.scanBatchSize_ne_zero).bind fun found => Action.ends_pure _
  · exact Action.ends_pure none

/-- A cursor that does not come before anything comes after something. -/
theorem goesBack_of_forward (limit : Nat) {cursor : Option Cursor} (hbefore : q.before = none)
    (hcursor : d.cursor q = .ok cursor) :
    (⟨limit, q.key, q.order, cursor⟩ : PageWindow).goesBack = false := by
  cases cursor with
  | none => rfl
  | some c =>
    obtain ⟨-, ⟨hdirection, -⟩ | ⟨-, hback, -⟩⟩ := cursor_direction hcursor
    · show (c.direction == .before) = false
      rw [hdirection]
      rfl
    · rw [hbefore] at hback
      cases hback

/-- A page that is asked for from the start or after a cursor is a stretch, and its token for the
next page is made from the position where it stops, which is that of its last organization. -/
theorem page_stretch (hs : s.store.Consistent) (hbefore : q.before = none) {limit : Nat}
    {filter : Option Filter} {cursor : Option Cursor} (hlimit : d.pageSize q.limit = .ok limit)
    (hfilter : Filter.parseGiven q.filter = .ok filter) (hcursor : d.cursor q = .ok cursor)
    {page : Page BasicOrganization}
    (hpage : (d.list room caller q allow).run Disturbed.environment s = (.ok (some page), t)) :
    ∃ stop new, s.Watches new t ∧
      Stretch (Shown (scopeOf caller q.recursive) filter allow) q.key q.order
        (cursor.map (·.position)) new page.items stop ∧
      (page.next = stop.map fun p => (Cursor.new q.key q.order .after p).encode
        d.config.cursorSecret) ∧
      ∀ p, stop = some p → ∃ b, page.items.getLast? = some b ∧ b.position q.key = p := by
  obtain ⟨outcome, t', new, hrun, hwatches, hanswer⟩ :=
    run_list_disturbed hs room caller allow hlimit hfilter hcursor
  rw [hrun] at hpage
  -- a request that is served has found room and has not been refused for its scope
  cases hpage
  rcases hanswer with ⟨found, ⟨⟩, hfilled⟩ | ⟨⟨⟩, -⟩ | ⟨acting, -, hrefused⟩
  · let w : PageWindow := ⟨limit, q.key, q.order, cursor⟩
    have hforward : w.goesBack = false := goesBack_of_forward limit hbefore hcursor
    -- read forward, so the order of reading is that of the listing
    have hreading : w.readingOrder = q.order := by
      unfold PageWindow.readingOrder
      rw [hforward]
      rfl
    have hstretch : Stretch (Shown (scopeOf caller q.recursive) filter allow) q.key w.readingOrder
        (cursor.map (·.position)) new ((found.take limit).map (·.basic)) (w.stop found) :=
      hfilled.stretch (pageSize_ne_zero hlimit)
    rw [hreading] at hstretch
    refine ⟨w.stop found, new, hwatches, ?_, PageWindow.next_pageOf hforward _, fun p hp => ?_⟩
    · show Stretch _ _ _ _ _ ((w.pageOf d.config.cursorSecret found).items.map _) _
      rw [PageWindow.items_pageOf hforward]
      exact hstretch
    · obtain ⟨-, last, hlast, rfl⟩ := PageWindow.stop_eq_some hp
      refine ⟨last.basic, ?_, BasicOrganization.position_basic ..⟩
      show ((w.pageOf d.config.cursorSecret found).items.map _).getLast? = _
      rw [PageWindow.items_pageOf hforward, List.getLast?_map, hlast]
      rfl
  · cases hrefused

/-! ## Walks -/

/-- Pages that are asked for one after the other, from a first one on until there is no next one.
Every request may ask for a size of its own. -/
inductive Walk (d : Directory) (room : Nat → Bool) (caller : Caller)
    (allow : BasicOrganization → Bool) :
    ListingQuery → Disturbed → List (Page BasicOrganization) → Disturbed → Prop where
  | last {q : ListingQuery} {s t : Disturbed} {page : Page BasicOrganization}
      (hpage : (d.list room caller q allow).run Disturbed.environment s = (.ok (some page), t))
      (hend : page.next = none) : Walk d room caller allow q s [page] t
  | more {q : ListingQuery} {s t u : Disturbed} {page : Page BasicOrganization} {token : String}
      {limit : Option Nat} {rest : List (Page BasicOrganization)}
      (hpage : (d.list room caller q allow).run Disturbed.environment s = (.ok (some page), t))
      (hnext : page.next = some token)
      (hrest : Walk d room caller allow { q with after := some token, limit } t rest u) :
      Walk d room caller allow q s (page :: rest) u

/-- The pages of a walk lose no position: each of them but the last one ends with an organization
whose position can be told from its token. -/
def Traceable (key : SortKey) (pages : List (Page BasicOrganization)) : Prop :=
  ∀ page ∈ pages.dropLast, ∀ b, page.items.getLast? = some b → (b.position key).Legible

theorem Walk.ne_nil {pages : List (Page BasicOrganization)}
    (h : Walk d room caller allow q s pages t) : pages ≠ [] := by
  cases h <;> exact List.cons_ne_nil _ _

theorem traceable_cons {page : Page BasicOrganization} {rest : List (Page BasicOrganization)}
    (hrest : rest ≠ []) : Traceable key (page :: rest) ↔
      (∀ b, page.items.getLast? = some b → (b.position key).Legible) ∧ Traceable key rest := by
  rw [Traceable, List.dropLast_cons_of_ne_nil hrest, List.forall_mem_cons]
  exact Iff.rfl

/-- A walk is a stretch that goes to the end of the listing. -/
theorem Walk.stretch {pages : List (Page BasicOrganization)}
    (h : Walk d room caller allow q s pages t) (hs : s.store.Consistent) (hbefore : q.before = none)
    (htraceable : Traceable q.key pages) :
    ∃ filter cursor new, Filter.parseGiven q.filter = .ok filter ∧ d.cursor q = .ok cursor ∧
      s.Watches new t ∧ Stretch (Shown (scopeOf caller q.recursive) filter allow) q.key q.order
        (cursor.map (·.position)) new (pages.flatMap (·.items)) none := by
  induction h with
  | last hpage hend =>
    obtain ⟨limit, filter, cursor, hlimit, hfilter, hcursor⟩ := list_in_order hpage
    obtain ⟨stop, new, hwatches, hstretch, hnext, -⟩ :=
      page_stretch hs hbefore hlimit hfilter hcursor hpage
    rw [hend] at hnext
    obtain rfl : stop = none := Option.map_eq_none_iff.1 hnext.symm
    rw [List.flatMap_singleton]
    exact ⟨filter, cursor, new, hfilter, hcursor, hwatches, hstretch⟩
  | @more q s t u page token limit rest hpage htoken hrest ih =>
    obtain ⟨_, filter, cursor, hlimit, hfilter, hcursor⟩ := list_in_order hpage
    obtain ⟨stop, new, hwatches, hstretch, hnext, hlast⟩ :=
      page_stretch hs hbefore hlimit hfilter hcursor hpage
    rw [htoken] at hnext
    obtain ⟨p, rfl, rfl⟩ := Option.map_eq_some_iff.1 hnext.symm
    obtain ⟨hturn, htraceable⟩ := (traceable_cons hrest.ne_nil).1 htraceable
    obtain ⟨b, hb, hat⟩ := hlast p rfl
    obtain ⟨filter', cursor', new', hfilter', hcursor', hwatches', hstretch'⟩ :=
      ih (hwatches.consistent hs) hbefore htraceable
    -- the next request is about the same listing, from where this page stops
    rw [cursor_of_token d hbefore limit p, Position.asRead_of_legible (hat ▸ hturn b hb)] at hcursor'
    obtain rfl : some (Cursor.new q.key q.order .after p) = cursor' := Except.ok.inj hcursor'
    obtain rfl : filter = filter' := Except.ok.inj (hfilter.symm.trans hfilter')
    rw [List.flatMap_cons]
    exact ⟨filter, cursor, new ++ new', hfilter, hcursor, hwatches.trans hwatches',
      hstretch.append hstretch'⟩

/-- On a walk that goes to the end whatever has stayed where it is occurs once, and its id does not
occur at another position. -/
theorem Stretch.occurs {items : List BasicOrganization}
    (h : Stretch shown key order none past items none)
    (hheld : ∀ s o, shown s o → s.Holds o) {p : Position} (hp : Stays shown key past p) :
    p ∈ items.map (·.position key) ∧ (items.map (·.id)).count p.id = 1 := by
  have hmem : p ∈ items.map (·.position key) := by
    rcases h.complete p hp (fun _ hno => nomatch hno) with ⟨b, hb, hat⟩ | ⟨_, hno, -⟩
    · exact List.mem_map.2 ⟨b, hb, hat⟩
    · cases hno
  refine ⟨hmem, ?_⟩
  -- strict order admits each position once; what is left is that the id has no other position
  have hdistinct : (items.map (·.position key)).Nodup := by
    rw [List.Nodup, List.pairwise_map]
    exact h.sorted.imp SortOrder.ne_of_lt
  have hid (b : BasicOrganization) : (b.position key).id = b.id := by
    cases key <;> rfl
  -- what is shown with this id was shown when something stood at the position, and is the same
  have hsame : ∀ b ∈ items, b.id = p.id ↔ b.position key = p := by
    intro b hb
    constructor
    · intro heq
      obtain ⟨m, hm, o, ho, rfl⟩ := h.seen b hb
      obtain ⟨o', ho', rfl⟩ := hp m hm
      have hrecord : m.store.organizations.get? o.id = some o := hheld _ _ ho
      have hrecord' : m.store.organizations.get? o'.id = some o' := hheld _ _ ho'
      rw [Position.of_id] at heq
      rw [show o.id = o'.id from heq, hrecord', Option.some_inj] at hrecord
      rw [BasicOrganization.position_basic, hrecord]
    · rintro rfl
      exact (hid b).symm
  have hcount : (items.map (·.id)).count p.id = (items.map (·.position key)).count p := by
    rw [List.count, List.count, List.countP_map, List.countP_map]
    refine List.countP_congr fun b hb => ?_
    simp only [Function.comp_apply, beq_iff_eq]
    exact hsame b hb
  rw [hcount, hdistinct.count, if_pos hmem]

/-! ## Walks that end -/

/-- Behind the stop of a stretch less can still come up than behind its origin. -/
theorem Stretch.left_lt {items : List BasicOrganization} {p : Position} {new : List Moment}
    (h : Stretch shown key order origin new items (some p))
    (hheld : ∀ s o, shown s o → s.Holds o) (hwatches : s.Watches new t) :
    t.left (order.Past key (some p)) < s.left (order.Past key origin) := by
  obtain ⟨b, hb, rfl⟩ := h.reached p rfl
  have hbeyond := h.beyond b hb
  obtain ⟨m, hm, o, ho, rfl⟩ := h.seen b hb
  rw [BasicOrganization.position_basic] at hbeyond ⊢
  exact hwatches.left_lt hm (hheld _ _ ho) (fun _ => SortOrder.past_of_past hbeyond)
    (SortOrder.past_iff.2 hbeyond) SortOrder.past_self

/-- Every record of a store has a position that can be told from its token. -/
def AllLegible (key : SortKey) (s : Store) : Prop :=
  ∀ o ∈ s.organizations.values, (Position.of key o).Legible

instance (key : SortKey) : DecidablePred (AllLegible key) := fun s =>
  inferInstanceAs (Decidable (∀ o ∈ s.organizations.values, (Position.of key o).Legible))

/-- Whatever others do, a walk through the forest comes to its end if it comes upon no position that
is lost on the way. -/
theorem exists_walk (hs : s.store.Consistent) (hcaller : caller.acting = none)
    (allow : BasicOrganization → Bool) (hbefore : q.before = none) {limit : Nat}
    {filter : Option Filter} {cursor : Option Cursor} (hlimit : d.pageSize q.limit = .ok limit)
    (hroom : room (limit + 1) = true) (hfilter : Filter.parseGiven q.filter = .ok filter)
    (hcursor : d.cursor q = .ok cursor)
    (hlegible : s.store.Throughout (AllLegible q.key) s.ahead.flatten) :
    ∃ pages t, Walk d room caller allow q s pages t ∧ Traceable q.key pages := by
  -- on what can still come up behind the cursor
  induction hn : s.left (q.order.Past q.key (cursor.map (·.position)))
    using Nat.strongRecOn generalizing s q cursor with
  | ind n ih =>
    subst hn
    obtain ⟨outcome, t, _, hrun, -, hanswer⟩ :=
      run_list_disturbed hs room caller allow hlimit hfilter hcursor
    rcases hanswer with ⟨found, rfl, -⟩ | ⟨-, hnone⟩ | ⟨acting, hacting, -⟩
    · obtain ⟨stop, new, hwatches, hstretch, hnext, hlast⟩ :=
        page_stretch hs hbefore hlimit hfilter hcursor hrun
      cases stop with
      | none => exact ⟨_, t, .last hrun hnext, fun _ hno => nomatch hno⟩
      | some p =>
        have hless := hstretch.left_lt (fun _ _ => Shown.holds) hwatches
        obtain ⟨hmet, hahead⟩ := hwatches.throughout hlegible
        obtain ⟨b, hb, hat⟩ := hlast p rfl
        -- where the page stops there was a record when it was met
        have hp : p.Legible := by
          obtain ⟨m, hm, o, ho, rfl⟩ := hstretch.seen b (List.mem_of_getLast? hb)
          rw [BasicOrganization.position_basic] at hat
          exact hat ▸ hmet m hm o (Table.mem_values.2 ⟨o.id, ho.holds⟩)
        let token := (Cursor.new q.key q.order .after p).encode d.config.cursorSecret
        have hcursor' := cursor_of_token d hbefore q.limit p
        rw [Position.asRead_of_legible hp] at hcursor'
        obtain ⟨rest, u, hrest, htraceable⟩ := ih _ hless (hwatches.consistent hs)
          (q := { q with after := some token }) hbefore hlimit hfilter hcursor' hahead rfl
        refine ⟨_, u, .more hrun hnext hrest, (traceable_cons hrest.ne_nil).2 ⟨?_, htraceable⟩⟩
        intro b' hb'
        obtain rfl := Option.some.inj (hb.symm.trans hb')
        exact hat ▸ hp
    · rw [hroom] at hnone
      cases hnone
    · rw [hcaller] at hacting
      cases hacting

/-! ## What walks give -/

/-- **Walks repeat nothing and skip nothing that stays.** Whatever others do to the store between
the calls of a walk, the positions of the organizations it is given are in strict order from the
first page to the last, and whatever has been shown at one and the same position at every moment of
the walk is given once. Each organization is given as it was at some moment of the walk. All this
holds as long as no page but the last one ends with a leap second within a minute, in a listing by
creation: the token of that page would stand for the next second. -/
theorem walk_complete (d : Directory) (room : Nat → Bool) (changes : List StoreChange)
    (ahead : List (List StoreChange)) (caller : Caller) {q : ListingQuery}
    (hfirst : q.after = none ∧ q.before = none) (allow : BasicOrganization → Bool)
    {pages : List (Page BasicOrganization)} {t : Disturbed}
    (h : Walk d room caller allow q ⟨Store.after changes, ahead, []⟩ pages t)
    (htraceable : Traceable q.key pages) :
    ∃ filter, Filter.parseGiven q.filter = .ok filter ∧
      let shown := Shown (scopeOf caller q.recursive) filter allow
      let items := pages.flatMap (·.items)
      Disturbed.Path (Store.after changes) t.past t.store ∧
      (items.map (·.position q.key)).Pairwise q.order.Lt ∧
      (∀ b ∈ items, ∃ m ∈ t.past, ∃ o, shown m.store o ∧ o.basic = b) ∧
      ∀ p, Stays shown q.key t.past p →
        p ∈ items.map (·.position q.key) ∧ (items.map (·.id)).count p.id = 1 := by
  obtain ⟨hafter, hbefore⟩ := hfirst
  obtain ⟨filter, cursor, new, hfilter, hcursor, hwatches, hstretch⟩ :=
    h.stretch (.after changes) hbefore htraceable
  obtain rfl : cursor = none := by
    unfold Directory.cursor at hcursor
    rw [hafter, hbefore] at hcursor
    exact (Except.ok.inj hcursor).symm
  have hpast : t.past = new := hwatches.past
  rw [hpast]
  refine ⟨filter, hfilter, hwatches.path, ?_, hstretch.seen, fun p hp => ?_⟩
  · rw [List.pairwise_map]
    exact hstretch.sorted
  · exact hstretch.occurs (fun _ _ => Shown.holds) hp

/-- While the siblings are walked through a fourth one comes and goes, one is renamed, and one moves
below another. -/
def meanwhile : List (List StoreChange) :=
  let written (id name parent : String) : Organization :=
    { Organization.new .epoch name with id, parentId := some parent }
  [[.insert (written "d" "Dan" "root") ⟨"d", "d.example", 5⟩],
    [.update (written "b" "Zoe" "root") 1],
    [.update (written "c" "Cid" "a") 1, .delete "d"]]

theorem walk_complete_meanwhile :
    let q : ListingQuery := { lastButBob with recursive := true, key := .created }
    let caller : Caller := .new "request"
    let start : Disturbed := ⟨Store.after siblings, meanwhile, []⟩
    (q.after = none ∧ q.before = none) ∧
      ∃ pages t, Walk standard addressable caller (·.status == .active) q start pages t ∧
        Traceable .created pages ∧
        ((pages.flatMap (·.items)).map (·.position .created)).Pairwise SortOrder.descending.Lt ∧
        ((pages.flatMap (·.items)).map (·.id)).count "root" = 1 ∧
        ((pages.flatMap (·.items)).map (·.id)).count "a" = 1 := by
  intro q caller start
  let filter : Filter := ⟨[.compareText .name .notEqual "Bob"], "name ne Bob"⟩
  have hfilter : Filter.parseGiven q.filter = .ok (some filter) := by rfl
  have hstart : start.store.Consistent := .after siblings
  have hcaller : caller.acting = none := rfl
  have hcursor : standard.cursor q = .ok none := rfl
  have hroom : addressable (1 + 1) = true := by decide
  have hlegible : start.store.Throughout (AllLegible .created) start.ahead.flatten := by
    decide +kernel
  obtain ⟨pages, t, hwalk, htraceable⟩ :=
    exists_walk hstart hcaller (·.status == .active) rfl rfl hroom hfilter hcursor hlegible
  obtain ⟨filter', hfilter', -, hsorted, -, honce⟩ := walk_complete standard addressable siblings
    meanwhile caller ⟨rfl, rfl⟩ (·.status == .active) hwalk htraceable
  obtain rfl : some filter = filter' := Except.ok.inj (hfilter.symm.trans hfilter')
  obtain ⟨-, -, new, -, -, hwatches, -⟩ := hwalk.stretch (.after siblings) rfl htraceable
  have hpast : t.past = new := hwatches.past
  rw [← hpast] at hwatches
  -- whoever is there after any number of the changes is given once
  have honce' (o : Organization) (hshown : filter.holds o = true ∧ o.isActive = true)
      (hthere : start.store.Throughout (fun s => s.organizations.get? o.id = some o)
        start.ahead.flatten) :
      ((pages.flatMap (·.items)).map (·.id)).count o.id = 1 := by
    refine (honce (.of .created o) fun m hm => ⟨o, ⟨?_, hshown⟩, rfl⟩).2
    exact (hwatches.throughout hthere).1 m hm
  let root : Organization := { Organization.new .epoch "Root" with id := "root" }
  let ann : Organization :=
    { Organization.new .epoch "Ann" with id := "a", parentId := some "root" }
  exact ⟨⟨rfl, rfl⟩, pages, t, hwalk, htraceable, hsorted,
    honce' root.asFirst ⟨by decide, rfl⟩ (by decide +kernel),
    honce' ann.asFirst ⟨by decide, rfl⟩ (by decide +kernel)⟩

/-- A directory that scans one organization at a time. -/
def oneByOne : Directory := standard.inBatchesOf 1 (by decide)

/-- The roots, one to a page, and the last created first. -/
def latestFirst : ListingQuery := { ListingQuery.new with limit := some 1, order := .descending }

/-- What fills such a page. -/
def latestFrom (cursor : Option Cursor) : Selection :=
  ⟨.roots, none, ⟨1, .created, .descending, cursor⟩, 1⟩

/-- A root of a leap second within a minute. During the first page there comes an older one, and
before the second page both of them are exchanged for a later one. -/
def noonExchanged : Disturbed where
  store := Store.after [.insert noon ⟨"noon", "noon.example", 1⟩]
  ahead := [[], [.insert { Organization.new .epoch "Old" with id := "old" } ⟨"old", "old.example", 2⟩],
    [.delete "old", .delete "noon", .insert later ⟨"later", "later.example", 3⟩]]
  past := []

/-- The walk as it is after the first page. -/
def pastNoon : Disturbed :=
  ((fill (latestFrom none) fun _ => true).run Disturbed.environment noonExchanged).2

/-- A walk by creation that has come to a leap second within a minute turns back. -/
theorem walk_turns_back :
    ∃ pages t, Walk oneByOne addressable (.new "request") (fun _ => true) latestFirst noonExchanged
        pages t ∧
      let items := pages.flatMap (·.items)
      items = [noon.asFirst.basic, later.asFirst.basic] ∧
        ¬ (items.map (·.position latestFirst.key)).Pairwise latestFirst.order.Lt := by
  let read : Cursor := .new .created .descending .after (Position.of .created noon).asRead
  -- the first page stops at noon, as there is an older root
  have hfill : (fill (latestFrom none) fun _ => true).run Disturbed.environment noonExchanged =
      (.ok [noon.asFirst, { Organization.new .epoch "Old" with id := "old" }.asFirst], pastNoon) :=
    Prod.ext (toOption_eq_some.1 (by decide +kernel)) rfl
  have hfirst : (oneByOne.list addressable (.new "request") latestFirst _).run _ noonExchanged = _ :=
    run_list_filled rfl rfl rfl rfl rfl hfill
  -- its token stands for the second after noon, so that the second page starts before noon
  have hcursor := cursor_of_token (q := latestFirst) oneByOne rfl (some 1) (.of .created noon)
  have hfill' : (fill (latestFrom (some read)) fun _ => true).run Disturbed.environment pastNoon =
      (.ok [later.asFirst], _) :=
    Prod.ext (toOption_eq_some.1 (by decide +kernel)) rfl
  have hsecond : (oneByOne.list addressable (.new "request") _ _).run _ pastNoon = _ :=
    run_list_filled rfl rfl hcursor rfl rfl hfill'
  exact ⟨_, _, .more hfirst rfl (.last hsecond rfl), rfl, by decide⟩

end Directory

end OrgForest
