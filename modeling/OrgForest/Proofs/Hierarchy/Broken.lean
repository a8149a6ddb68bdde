import OrgForest.Proofs.Hierarchy.Distances
import OrgForest.Proofs.Store.Reach

/-!
# Walks on broken links

No change of a store breaks its links. The walks do not rely on that: whatever the links between
records may be, they end, and what they end with tells what is wrong. Following parents from an id
comes to a root, to an id without record, or round again, and never to two of these, since an id has
one parent at most. Following entries of the index of children may come to one id in several ways.

* `Store.ReachesRoot`, `Store.ReachesMissing`, `Store.ReachesLoop` — what following parents comes
  to;
* `Store.ends_iff` — each of them is how a way up ends;
* `Hierarchy.ClimbEnds`, `Hierarchy.SearchEnds`, `Hierarchy.DescentEnds` — what the walks end with;
* `Hierarchy.walks_end` — they do, on any links between records.
-/

namespace OrgForest

namespace Store

/-! ## Following parents -/

/-- Following parents comes to a record without parent. -/
def ReachesRoot (s : Store) (id : String) : Prop :=
  ∃ r, s.AtOrAbove r id ∧ s.parentId? r = some none

/-- Following parents comes to an id without record. -/
def ReachesMissing (s : Store) (id : String) : Prop :=
  ∃ x, s.AtOrAbove x id ∧ s.parentId? x = none

/-- Following parents comes to an id that stands above itself. -/
def ReachesLoop (s : Store) (id : String) : Prop :=
  ∃ x, s.AtOrAbove x id ∧ Relation.TransGen s.ParentOf x x

variable {s : Store} {id t x y : String} {way met : List String} {last : WayEnd}

theorem ParentOf.unique {p p' : String} (h : s.ParentOf p id) (h' : s.ParentOf p' id) : p = p' := by
  rw [ParentOf] at h h'
  rw [h, Option.some_inj, Option.some_inj] at h'
  exact h'

/-! ### Tops -/

/-- A top has no parent, be it a root or without record. -/
def Top (s : Store) (t : String) : Prop := ∀ p, ¬ s.ParentOf p t

theorem Top.of_root (h : s.parentId? t = some none) : s.Top t := by
  intro p hp
  rw [ParentOf, h] at hp
  cases hp

theorem Top.of_missing (h : s.parentId? t = none) : s.Top t := by
  intro p hp
  rw [ParentOf, h] at hp
  cases hp

/-- Nothing else is at or above a top. -/
theorem Top.eq (h : s.Top t) (hx : s.AtOrAbove x t) : x = t := by
  rcases Relation.ReflTransGen.cases_tail hx with heq | ⟨p, -, hp⟩
  · exact heq.symm
  · exact absurd hp (h p)

/-- As there is one way up only, it leads through all that is above to the top. -/
theorem Top.above (h : s.Top t) (ht : s.AtOrAbove t id) (hx : s.AtOrAbove x id) :
    s.AtOrAbove t x := by
  induction ht with
  | refl =>
    rw [h.eq hx]
    exact .refl
  | @tail parent id htop hparent ih =>
    rcases Relation.ReflTransGen.cases_tail hx with rfl | ⟨p, hx, hp⟩
    · exact htop.tail hparent
    · obtain rfl := hp.unique hparent
      exact ih hx

/-- All that is above an id on a loop is on it as well. -/
theorem above_of_loop (hloop : Relation.TransGen s.ParentOf x x) (hy : s.AtOrAbove y x) :
    Relation.TransGen s.ParentOf x y := by
  -- from the id up: the parent of an id on the loop is the one that the loop goes through
  induction hy using Relation.ReflTransGen.head_induction_on with
  | refl => exact hloop
  | head hparent _ ih =>
    obtain ⟨p, hx, hp⟩ := Relation.TransGen.tail'_iff.1 ih
    obtain rfl := hp.unique hparent
    rcases Relation.reflTransGen_iff_eq_or_transGen.1 hx with rfl | hx
    · exact hloop
    · exact hx

theorem Top.not_loop (h : s.Top t) (ht : s.AtOrAbove t id) : ¬ s.ReachesLoop id := by
  rintro ⟨x, hx, hloop⟩
  have hround := above_of_loop hloop (h.above ht hx)
  obtain ⟨p, -, hp⟩ := Relation.TransGen.tail'_iff.1 hround
  exact h p hp

/-- There is one top at most at or above an id. -/
theorem Top.unique (h : s.Top t) (h' : s.Top x) (ht : s.AtOrAbove t id) (hx : s.AtOrAbove x id) :
    t = x :=
  h'.eq (h.above ht hx)

/-! ### Ways -/

/-- A way goes through what is at or above its start. -/
theorem atOrAbove_of_way (h : Way s.parentId? met id way last) (hx : x ∈ way) :
    s.AtOrAbove x id := by
  induction h with
  | root =>
    rw [List.mem_singleton.1 hx]
    exact .refl
  | missing => cases hx
  | again => cases hx
  | link _ hup _ ih =>
    rcases List.mem_cons.1 hx with rfl | hx
    · exact .refl
    · exact (ih hx).tail hup

theorem missing_of_way (h : Way s.parentId? met id way (.missing x)) :
    s.AtOrAbove x id ∧ s.parentId? x = none := by
  generalize hlast : WayEnd.missing x = last at h
  induction h with
  | root => cases hlast
  | missing _ hup =>
    cases hlast
    exact ⟨.refl, hup⟩
  | again => cases hlast
  | link _ hup _ ih => exact ⟨(ih hlast).1.tail hup, (ih hlast).2⟩

/-- A way that comes to an id again has gone through it, unless it was met before. -/
theorem loop_of_way (h : Way s.parentId? met id way (.again x)) :
    s.AtOrAbove x id ∧ (x ∈ met ∨ Relation.TransGen s.ParentOf x x) := by
  generalize hlast : WayEnd.again x = last at h
  induction h with
  | root => cases hlast
  | missing => cases hlast
  | again hmem =>
    cases hlast
    exact ⟨.refl, .inl hmem⟩
  | @link met way id parent last _ hup _ ih =>
    obtain ⟨habove, hmet⟩ := ih hlast
    refine ⟨habove.tail hup, ?_⟩
    rcases hmet with hmem | hloop
    · rcases List.mem_cons.1 hmem with rfl | hmem
      · exact .inr (.tail' habove hup)
      · exact .inl hmem
    · exact .inr hloop

/-- What is at or above an id is on the way from it, or what is missing at its end. -/
theorem atOrAbove_iff_way (h : Way s.parentId? [] id way last) :
    s.AtOrAbove x id ↔ x ∈ way ∨ last = .missing x := by
  constructor
  · intro hx
    obtain ⟨hstart, hclosed⟩ := h.closed (fun y hy => absurd hy List.not_mem_nil)
    rw [List.append_nil] at hstart hclosed
    induction hx using Relation.ReflTransGen.head_induction_on with
    | refl => exact hstart
    | head hparent _ ih =>
      rcases ih with hmem | hmissing
      · exact hclosed _ hmem _ hparent
      · rw [hmissing] at h
        exact absurd hparent (Top.of_missing (missing_of_way h).2 _)
  · rintro (hmem | rfl)
    · exact atOrAbove_of_way h hmem
    · exact (missing_of_way h).1

theorem ReachesRoot.of_lineage {chain : Chain} (h : Lineage s.parentId? id chain) :
    s.ReachesRoot id := by
  obtain ⟨r, hr, hroot⟩ := h.head?_root
  exact ⟨r, (mem_lineage_iff h).1 (List.mem_of_head? hr), hroot⟩

theorem parentId?_eq_none : s.parentId? id = none ↔ s.organizations.contains id = false := by
  rw [parentId?, Option.map_eq_none_iff, Table.contains_eq_false]

/-- A way that goes through anything starts from a record. -/
theorem contains_of_way (h : Way s.parentId? met id (x :: way) last) :
    s.organizations.contains id = true := by
  cases h with
  | root _ hup => exact contains_of_parentId? hup
  | link _ hup _ => exact contains_of_parentId? hup

/-- A way up ends in what following parents comes to. -/
theorem ends_iff (h : Way s.parentId? [] id way last) :
    (last = .root ↔ s.ReachesRoot id) ∧ ((∃ x, last = .missing x) ↔ s.ReachesMissing id) ∧
      ((∃ x, last = .again x) ↔ s.ReachesLoop id) := by
  -- there is one top at most, and no loop below it, so one end excludes the others
  cases last with
  | root =>
    obtain ⟨r, habove, hroot⟩ := ReachesRoot.of_lineage h.lineage
    have htop := Top.of_root hroot
    refine ⟨iff_of_true rfl ⟨r, habove, hroot⟩, iff_of_false nofun ?_,
      iff_of_false nofun (htop.not_loop habove)⟩
    rintro ⟨x, hx, hmissing⟩
    rw [htop.unique (.of_missing hmissing) habove hx, hmissing] at hroot
    cases hroot
  | missing x =>
    obtain ⟨habove, hmissing⟩ := missing_of_way h
    have htop := Top.of_missing hmissing
    refine ⟨iff_of_false nofun ?_, iff_of_true ⟨x, rfl⟩ ⟨x, habove, hmissing⟩,
      iff_of_false nofun (htop.not_loop habove)⟩
    rintro ⟨r, hr, hroot⟩
    rw [htop.unique (.of_root hroot) habove hr, hroot] at hmissing
    cases hmissing
  | again x =>
    obtain ⟨habove, hloop⟩ := loop_of_way h
    have hloops : s.ReachesLoop id := ⟨x, habove, hloop.resolve_left List.not_mem_nil⟩
    refine ⟨iff_of_false nofun ?_, iff_of_false nofun ?_, iff_of_true ⟨x, rfl⟩ hloops⟩
    · rintro ⟨r, hr, hroot⟩
      exact (Top.of_root hroot).not_loop hr hloops
    · rintro ⟨m, hm, hmissing⟩
      exact (Top.of_missing hmissing).not_loop hm hloops

end Store

namespace Hierarchy

/-! ## What walks end with -/

/-- What a walk up from an id ends with. -/
structure ClimbEnds (s : Store) (id : String) (outcome : Except OrganizationError Chain) :
    Prop where
  unknown : outcome = .ok [] ↔ s.organizations.contains id = false
  /-- A chain that is not empty is that of the links up to a root. -/
  chain : ∀ c, c ≠ [] → (outcome = .ok c ↔ Lineage s.parentId? id c)
  rooted : (∃ c, c ≠ [] ∧ outcome = .ok c) ↔ s.ReachesRoot id
  violation : (∃ v, outcome = .error (.invariantViolation v)) ↔
    s.organizations.contains id = true ∧ (s.ReachesMissing id ∨ s.ReachesLoop id)
  /-- There is nothing else that it may end with. -/
  settled : (∃ c, outcome = .ok c) ∨ ∃ v, outcome = .error (.invariantViolation v)

/-- What the search of a store for one id at or above another ends with. -/
structure SearchEnds (s : Store) (id ancestor : String) (outcome : Except StoreError Bool) :
    Prop where
  found : outcome = .ok true ↔ s.AtOrAbove ancestor id
  corrupt : (∃ e, outcome = .error e) ↔ ¬ s.AtOrAbove ancestor id ∧ s.ReachesLoop id
  /-- Only an id that stands above itself is reported. -/
  reported : ∀ e, outcome = .error e → ∃ x, e = .corruption x "parent chain contains a cycle" ∧
    s.AtOrAbove x id ∧ Relation.TransGen s.ParentOf x x

/-- What a walk to the end below an id ends with. -/
structure DescentEnds (s : Store) (id : String)
    (outcome : Except OrganizationError (List (List Organization))) : Prop where
  violation : (∃ v, outcome = .error (.invariantViolation v)) ↔ s.Entangled id
  /-- Otherwise it gives the records of all that entries lead to, each once. -/
  complete : ∀ levels, outcome = .ok levels →
    (levels.flatten.map (·.id)).Nodup ∧ (∀ o ∈ levels.flatten, s.Holds o) ∧
      ∀ x, x ∈ levels.flatten.map (·.id) ↔ s.Below id x
  settled : (∃ levels, outcome = .ok levels) ∨ ∃ v, outcome = .error (.invariantViolation v)

variable {s : Store} {id x : String} {way : List String} {last : WayEnd}

/-- The right end for an id without record. -/
theorem ClimbEnds.of_unknown (hid : s.organizations.contains id = false)
    (hroot : ¬ s.ReachesRoot id) : ClimbEnds s id (.ok []) where
  unknown := iff_of_true rfl hid
  chain c hne := iff_of_false (fun hok => hne (Except.ok.inj hok).symm)
    fun hchain => hroot (.of_lineage hchain)
  rooted := iff_of_false (fun ⟨_, hne, hok⟩ => hne (Except.ok.inj hok).symm) hroot
  violation := iff_of_false nofun fun hknown => by simp [hid] at hknown
  settled := .inl ⟨_, rfl⟩

/-- The right end for a record whose links come to a root. -/
theorem ClimbEnds.of_lineage {chain : Chain} (h : Lineage s.parentId? id chain)
    (hclear : ¬ (s.ReachesMissing id ∨ s.ReachesLoop id)) : ClimbEnds s id (.ok chain) where
  unknown := iff_of_false (fun hnil => h.ne_nil (Except.ok.inj hnil))
    (by simp [Store.contains_of_mem h h.mem_self])
  chain c _ := ⟨fun hok => Except.ok.inj hok ▸ h, fun hc => congrArg _ (h.unique hc)⟩
  rooted := iff_of_true ⟨_, h.ne_nil, rfl⟩ (.of_lineage h)
  violation := iff_of_false nofun fun hbroken => hclear hbroken.2
  settled := .inl ⟨_, rfl⟩

/-- The right end for a record whose links come to no root. -/
theorem ClimbEnds.of_broken (v : Violation) (hid : s.organizations.contains id = true)
    (hbroken : s.ReachesMissing id ∨ s.ReachesLoop id) (hroot : ¬ s.ReachesRoot id) :
    ClimbEnds s id (.error (.invariantViolation v)) where
  unknown := iff_of_false nofun (by simp [hid])
  chain c _ := iff_of_false nofun fun hchain => hroot (.of_lineage hchain)
  rooted := iff_of_false (fun ⟨_, _, hok⟩ => nomatch hok) hroot
  violation := iff_of_true ⟨v, rfl⟩ ⟨hid, hbroken⟩
  settled := .inr ⟨v, rfl⟩

/-- A walk up ends as its way does. -/
theorem climbed_ends (h : Way s.parentId? [] id way last) :
    ClimbEnds s id (climbed id way.reverse last) := by
  obtain ⟨hroot, hmissing, hloop⟩ := Store.ends_iff h
  cases last with
  | root =>
    refine .of_lineage h.lineage ?_
    rw [← hmissing, ← hloop]
    simp
  | missing x =>
    have hnoRoot : ¬ s.ReachesRoot id := fun hreaches => nomatch hroot.2 hreaches
    cases way with
    | nil =>
      -- nothing is on the way, so the id itself is what is missing
      cases h with
      | missing _ hup => exact .of_unknown (Store.parentId?_eq_none.1 hup) hnoRoot
    | cons y way =>
      obtain ⟨child, rest, hfound⟩ : ∃ child rest, (y :: way).reverse = child :: rest :=
        List.exists_cons_of_ne_nil (by simp)
      rw [hfound]
      exact .of_broken _ (Store.contains_of_way h) (.inl (hmissing.1 ⟨x, rfl⟩)) hnoRoot
  | again x =>
    cases way with
    | nil =>
      cases h with
      | again hmem => cases hmem
    | cons y way =>
      exact .of_broken _ (Store.contains_of_way h) (.inr (hloop.1 ⟨x, rfl⟩))
        fun hreaches => nomatch hroot.2 hreaches

/-- A search ends as the way does on which it looks. -/
theorem searched_ends (s : Store) (id x : String) : SearchEnds s id x (s.isOnChain id x) := by
  obtain ⟨way, last, h⟩ := s.exists_way List.nodup_nil (fun _ hx => nomatch hx) id
  obtain ⟨-, -, hloop⟩ := Store.ends_iff h
  rw [Store.isOnChain_of_way h]
  by_cases hfound : s.AtOrAbove x id
  · rw [if_pos ((Store.atOrAbove_iff_way h).1 hfound)]
    exact ⟨iff_of_true rfl hfound, iff_of_false nofun fun hno => hno.1 hfound, nofun⟩
  · rw [if_neg fun hway => hfound ((Store.atOrAbove_iff_way h).2 hway)]
    have hmissed (hclear : ¬ s.ReachesLoop id) : SearchEnds s id x (.ok false) :=
      ⟨iff_of_false nofun hfound, iff_of_false nofun fun hno => hclear hno.2, nofun⟩
    cases last with
    | root => exact hmissed fun hloops => nomatch hloop.2 hloops
    | missing y => exact hmissed fun hloops => nomatch hloop.2 hloops
    | again y =>
      obtain ⟨habove, hround⟩ := Store.loop_of_way h
      refine ⟨iff_of_false nofun hfound, iff_of_true ⟨_, rfl⟩ ⟨hfound, hloop.1 ⟨y, rfl⟩⟩, ?_⟩
      intro e he
      exact ⟨y, (Except.error.inj he).symm, habove, hround.resolve_left List.not_mem_nil⟩

/-- A walk down ends with the ranks, or where an id is met again because entries are entangled. -/
theorem descended_ends (hs : s.Recorded)
    {outcome : Except OrganizationError (List (List Organization))}
    (h : Descended s id outcome) : DescentEnds s id outcome := by
  cases h with
  | again x hrepeat =>
    exact ⟨iff_of_true ⟨_, rfl⟩ (Store.entangled_iff.2 ⟨_, hrepeat⟩), nofun, .inr ⟨_, rfl⟩⟩
  | ranks height hend hfull hnd =>
    have hclear : ¬ s.Entangled id := by
      intro hentangled
      obtain ⟨k, hrepeat⟩ := Store.entangled_iff.1 hentangled
      exact hrepeat (hnd k)
    have hids : ((List.range height).map (level s id)).flatten.map (·.id) =
        (List.range height).flatMap fun k => s.rank id (k + 1) := by
      rw [← List.flatMap_def, List.map_flatMap]
      simp only [map_id_level hs]
    have hranks : (id :: (List.range height).flatMap fun k => s.rank id (k + 1)).Nodup := by
      rw [← Store.ranksTo_eq_range]
      exact hnd height
    refine ⟨iff_of_false nofun hclear, ?_, .inl ⟨_, rfl⟩⟩
    rintro levels ⟨⟩
    rw [hids]
    refine ⟨(List.nodup_cons.1 hranks).2, fun o ho => ?_, fun x => ?_⟩
    · rw [← List.flatMap_def] at ho
      obtain ⟨k, -, hk⟩ := List.mem_flatMap.1 ho
      exact holds_of_mem_level hs hk
    · rw [Store.mem_ranks_iff hend, Store.below_iff]

/-- **Every walk ends.** Whatever the links of a store are, as long as records stand under their own
ids and children are records: parents may be missing or go round, entries of the index of children
may go round, share children or contradict the parents. A walk up gives nothing for an unknown id,
the chain where links come to a root, and a violation where they come to a missing record or round
again. The store's own search finds what is at or above an id and reports a loop only where it has
not. A walk down reports a violation where it comes to an id along two entries, or to the one it
started from, and gives every id below once where it does not. The store's own walk down gives every
id below once in any case. -/
theorem walks_end {s : Store} (hs : s.Recorded) (setting : Setting) (nextTenantId : Int64)
    (churned : Nat) (id : String) :
    let env := setting.undisturbed.environment
    let t : Surroundings := ⟨s, nextTenantId, churned, []⟩
    ClimbEnds s id ((climb id).run env t).1 ∧ (∀ x, SearchEnds s id x (s.isOnChain id x)) ∧
      DescentEnds s id ((descend id true).run env t).1 ∧
      (s.idsBelow id).Nodup ∧ ∀ x, x ∈ s.idsBelow id ↔ s.Below id x := by
  intro env t
  -- nobody comes between, so the walks go as in still surroundings
  have hstill {α : Type} (q : Action α) : (q.run env t).1 = (q.run setting.still t).1 :=
    (setting.run_undisturbed q t).1
  obtain ⟨way, last, hway⟩ := s.exists_way List.nodup_nil (fun _ hx => nomatch hx) id
  obtain ⟨outcome, hrun, hcome⟩ : ∃ outcome, (descend id true).run setting.still t = (outcome, t) ∧
    Descended s id outcome := run_descend_recorded hs id
  refine ⟨?_, searched_ends s id, ?_, s.mem_idsBelow_iff id⟩
  · rw [hstill, run_climb_way (s := t) hway]
    exact climbed_ends hway
  · rw [hstill, hrun]
    exact descended_ends hs hcome

/-- Two records that are each other's parents, one whose parent is missing, and a root with a child
that has an entry under its sibling as well. -/
def tangled : Store :=
  let record (id : String) (parentId : Option String) : Organization :=
    { Organization.new .epoch id with id, parentId }
  let children (ids : List String) : ChildSet :=
    ids.foldl (fun set id => set.insert ⟨.epoch, id⟩ ()) .empty
  { Store.empty with
    organizations := [record "a" (some "b"), record "b" (some "a"), record "c" (some "gone"),
      record "d" none, record "e" (some "d")].foldl (fun t o => t.insert o.id o) .empty
    children := (Table.empty.insert "c" (children ["e"])).insert "d" (children ["c", "e"]) }

/-- Two records go round and one dangles. Below the root a record is met twice, and found once. -/
theorem walks_end_tangled :
    let env := (⟨[], .sequential, fun _ => .ok []⟩ : Setting).undisturbed.environment
    let t : Surroundings := ⟨tangled, 1, 0, []⟩
    tangled.Recorded ∧ (∃ v, ((climb "a").run env t).1 = .error (.invariantViolation v)) ∧
      (∃ v, ((climb "c").run env t).1 = .error (.invariantViolation v)) ∧
      ((climb "e").run env t).1 = .ok ["d", "e"] ∧ tangled.isOnChain "c" "gone" = .ok true ∧
      (∃ v, ((descend "d" true).run env t).1 = .error (.invariantViolation v)) ∧
      (tangled.idsBelow "d").Nodup ∧ "e" ∈ tangled.idsBelow "d" := by
  intro env t
  have hs : tangled.Recorded := by decide +kernel
  have hends := walks_end hs ⟨[], .sequential, fun _ => .ok []⟩ 1 0
  have hab : tangled.ParentOf "b" "a" := by unfold Store.ParentOf; decide +kernel
  have hba : tangled.ParentOf "a" "b" := by unfold Store.ParentOf; decide +kernel
  have hgone : tangled.AtOrAbove "gone" "c" := .single (by unfold Store.ParentOf; decide +kernel)
  have hchain : Lineage tangled.parentId? "e" ["d", "e"] :=
    .child (by decide +kernel) (.root (by decide +kernel))
  have hc : tangled.Entry "d" ⟨.epoch, "c"⟩ := by unfold Store.Entry; decide +kernel
  have he : tangled.Entry "d" ⟨.epoch, "e"⟩ := by unfold Store.Entry; decide +kernel
  have he' : tangled.Entry "c" ⟨.epoch, "e"⟩ := by unfold Store.Entry; decide +kernel
  have hbelow : tangled.AtOrBelow "d" "c" := .single ⟨_, hc, rfl⟩
  obtain ⟨-, -, hdescent, hnodup, hids⟩ := hends "d"
  refine ⟨hs, (hends "a").1.violation.2 ⟨by decide +kernel, .inr ?_⟩,
    (hends "c").1.violation.2 ⟨by decide +kernel, .inl ⟨"gone", hgone, by decide +kernel⟩⟩,
    ((hends "e").1.chain _ (by decide)).2 hchain, ((hends "c").2.1 "gone").found.2 hgone,
    hdescent.violation.2 ?_, hnodup, (hids "e").2 (.single ⟨_, he, rfl⟩)⟩
  · exact ⟨"a", .refl, .head hba (.single hab)⟩
  · exact .twice .refl hbelow he he' rfl (by decide)

end Hierarchy

end OrgForest
