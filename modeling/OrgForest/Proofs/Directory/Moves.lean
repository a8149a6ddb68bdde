import OrgForest.Proofs.Directory.Below
import OrgForest.Proofs.Directory.Depth
import OrgForest.Proofs.Directory.PutBack

/-!
# Moves

An update that gives an organization another parent moves it with all that stands below it. The
checks on the way ask for chains and heights in four walks, and the store asks once more for a
cycle. Together they come to five conditions, and a move is a bad request exactly if one of them
fails. A move that is made changes one link, and with it the chains of a whole branch, two lists of
children and the structure version, but nothing else.

* `Directory.Relocated`, `Directory.update_relocated` — all that can become of a move;
* `Directory.Welcomes`, `Directory.welcomes_iff` — the conditions, in terms of the answers that the
  directory gives;
* `Directory.Regrafted`, `Directory.regrafted_of_moved` — what a move changes;
* `Directory.update_moves` — moves of a directory.
-/

namespace OrgForest.Directory

open Hierarchy (Views)

variable {d : Directory} {setting : Setting} {s : Surroundings} {o new : Organization} {p : String}

/-! ## What becomes of a move -/

/-- All that can become of an update that gives a record another parent: it is a bad request, and
the parent does not admit the record; or the parent admits it, and there is a conflict, or the
record is moved. -/
inductive Relocated (d : Directory) (s : Surroundings) (o candidate : Organization) (p : String)
    (run : Except OrganizationError Organization × Surroundings) : Prop where
  | barred {e : OrganizationError} (hno : ¬ d.Admits s.store p o.id) (he : e.kind = .badRequest)
      (hrun : run = (.error e, s))
  | conflicting {e : OrganizationError} (hadmits : d.Admits s.store p o.id)
      (he : e.kind = .conflict) (hrun : run = (.error e, s))
  | moved (hadmits : d.Admits s.store p o.id)
      (hrun : run = (.ok (candidate.asNext o),
        { s with store := s.store.moved o (candidate.asNext o) }))

/-- The store does not find a cycle that the checks have not found. -/
theorem run_write_moved {candidate : Organization} (ho : s.store.Holds o)
    (hid : candidate.id = o.id) (hp : candidate.parentId = some p) (hmove : o.parentId ≠ some p)
    (hadmits : d.Admits s.store p o.id) :
    (write candidate o.version).run setting.still s = (.ok (candidate.asNext o),
      { s with store := s.store.moved o (candidate.asNext o) }) := by
  obtain ⟨chain, hchain, hapart⟩ := hadmits.apart
  -- the parent is there, and its chain does not lead through the record
  have houtcome : s.store.moveOutcome o.id candidate.parentId = .ok none := by
    refine Store.moveOutcome_eq_none.2 fun q hq => ?_
    obtain rfl : p = q := Option.some.inj (hp.symm.trans hq)
    refine ⟨Store.contains_of_mem hchain hchain.mem_self, ?_⟩
    rw [Store.isOnChain_eq hchain, decide_eq_false hapart]
  have hcall : (Action.call (.update candidate o.version)).run setting.still s =
      ((s.store.update candidate o.version).1.mapError .storage,
        { s with store := (s.store.update candidate o.version).2 }) := rfl
  rw [write, Action.run_bind, hcall, Store.update_eq_moved (hid ▸ ho) houtcome (hp ▸ hmove)]
  rfl

/-- A move is checked first, and what is checked after it can only be in conflict with others. -/
theorem update_relocated (hs : s.store.Linked) (ho : s.store.Holds o)
    (htrimmed : Text.trimmed o.name = o.name) (hroot : o.isRoot = false)
    (hp : new.parentId = some p) (hmove : o.parentId ≠ some p) {name : String}
    (hname : d.validName new.name = .ok name)
    (hattributes : validAttributes new.attributes = .ok ()) (now : Timestamp) :
    d.Relocated s o { edited new name o with lastModified := now } p
      ((d.update now o.id o.name new).run setting.still s) := by
  have hload : (load o.id).run setting.still s = (.ok o, s) := by
    rw [run_load, show s.store.organizations.get? o.id = some o from ho]
  rw [update, hname, hattributes]
  simp only [Action.check, pure_bind]
  rw [Action.run_bind, hload]
  dsimp only
  -- the caller knows the name, and the parent is another one
  rw [if_neg (by simp [htrimmed]), if_pos (by rw [hp]; exact hmove.symm)]
  have hbarred (hno : ∀ _ : Unit, ¬ d.MayMove s.store o new.parentId) (e : OrganizationError)
      (he : e.kind = .badRequest) :
      d.Relocated s o { edited new name o with lastModified := now } p (.error e, s) := by
    rw [hp, mayMove_some hroot] at hno
    exact .barred (hno ()) he rfl
  refine (decides_vetMove hs ho new.parentId).run_bind hbarred fun _ hmay => ?_
  rw [hp, mayMove_some hroot] at hmay
  have hconflict (e : OrganizationError) (he : e.kind = .conflict) :
      d.Relocated s o { edited new name o with lastModified := now } p (.error e, s) :=
    .conflicting hmay he rfl
  -- what is left once the name is known to be free
  have hlast : d.Relocated s o { edited new name o with lastModified := now } p ((do
      vetStatus o.id o (edited new name o)
      write { edited new name o with lastModified := now } o.version :
      Action Organization).run setting.still s) := by
    have hactive : ∀ q, new.parentId = some q → s.store.Active q := by
      intro q hq
      obtain rfl : p = q := Option.some.inj (hp.symm.trans hq)
      obtain ⟨root, height, -, -, hhosts⟩ := hmay.fits
      exact hhosts.active
    refine (decides_vetStatus hs o.id hactive).run_bind (fun _ => hconflict) fun _ _ => ?_
    exact .moved hmay (run_write_moved ho rfl hp hmove hmay)
  rw [if_neg (by simp [Organization.agreesWith, hp, hmove.symm])]
  split
  · have hknown := Table.contains_of_get? ho
    exact (decides_requireFreeName hs hknown).run_bind (fun _ => hconflict) fun _ _ => hlast
  · exact hlast

/-! ## The conditions -/

/-- A parent to which a record may move, by what the directory answers: it is there and active, is
neither the record nor below it, has the same root, and what comes along does not exceed the limit
to the depth. -/
structure Welcomes (d : Directory) (s : Store) (v : Views) (parent id : String) : Prop where
  active : s.Active parent
  other : parent ≠ id
  notBelow : v.above id parent = false
  sameRoot : (v.chain parent).head? = (v.chain id).head?
  shallow : ∀ limit, d.config.maxDepth = some limit → v.depth parent + 1 + v.height id ≤ limit

/-- The conditions are those of the checks. -/
theorem welcomes_iff {t : Store} (hs : t.Linked) {chains : String → Chain}
    {levels : String → List (List Organization)} (hchains : ∀ x, t.ChainOf x (chains x))
    (hlevels : ∀ a, Hierarchy.LevelsOf t a (levels a)) {id : String}
    (hid : t.organizations.contains id = true) :
    d.Welcomes t (.ofWalks chains levels) p id ↔ d.Admits t p id := by
  obtain ⟨root, front, hfront, hroot⟩ := hs.inHierarchy hid
  have hchain : chains id = front := (hchains id).eq_of_lineage hfront
  constructor
  · intro h
    obtain ⟨chain, hlineage⟩ := hs.lineage (Store.contains_of_active h.active)
    obtain rfl : chains p = chain := (hchains p).eq_of_lineage hlineage
    refine ⟨⟨chains p, hlineage, fun hmem => ?_⟩, root, (levels id).length, ⟨front, hfront, hroot⟩,
      (hlevels id).1.1, h.active, chains p, hlineage, ?_, fun limit hlimit => ?_⟩
    · have habove := (hchains p).mem_dropLast.2 ⟨hmem, h.other.symm⟩
      exact of_decide_eq_false h.notBelow habove
    · have hsame : (chains p).head? = (chains id).head? := h.sameRoot
      rw [hsame, hchain, hroot]
    · have hfits : ((chains p).length : Int) - 1 + 1 + (levels id).length ≤ limit :=
        h.shallow limit hlimit
      omega
  · intro h
    obtain ⟨root', hin, hhosts⟩ := h.hosts (hlevels id).1.2
    obtain ⟨chain, hlineage, hhead, hfits⟩ := hhosts.placed
    obtain ⟨chain', hlineage', hapart⟩ := h.apart
    obtain rfl : chains p = chain := (hchains p).eq_of_lineage hlineage
    rw [← hlineage.unique hlineage'] at hapart
    refine ⟨hhosts.active, ?_, ?_, ?_, fun limit hlimit => ?_⟩
    · rintro rfl
      exact hapart hlineage.mem_self
    · refine decide_eq_false fun habove => hapart ?_
      exact ((hchains p).mem_dropLast.1 habove).1
    · show (chains p).head? = (chains id).head?
      rw [hhead, hchain, hroot, hin.unique ⟨front, hfront, hroot⟩]
    · have hfit := hfits limit hlimit
      show ((chains p).length : Int) - 1 + 1 + (levels id).length ≤ limit
      omega

/-! ## What a move changes -/

/-- A move as it is seen in the answers of the directory before and after it. -/
structure Regrafted (d : Directory) (env : Environment Surroundings) (before after : Surroundings)
    (v v' : Views) (o stored : Organization) (p : String) : Prop where
  /-- The record keeps its place among siblings. -/
  same : stored.id = o.id ∧ stored.created = o.created ∧ stored.parentId = some p
  /-- What is moved stands below the new parent, and from there on as before. -/
  branch : ∀ x, x = o.id ∨ v.above o.id x = true →
    v'.chain x = v.chain p ++ (v.chain x).dropWhile (· != o.id)
  /-- Nothing else is moved. -/
  others : ∀ x, x ≠ o.id → v.above o.id x = false → v'.chain x = v.chain x
  arrived : ∃ cs cs', ((d.children p false).run env before).1 = .ok cs ∧
    ((d.children p false).run env after).1 = .ok cs' ∧ Filed stored.basic cs cs'
  gone : ∃ q cs cs', o.parentId = some q ∧ ((d.children q false).run env before).1 = .ok cs ∧
    ((d.children q false).run env after).1 = .ok cs' ∧ Filed o.basic cs' cs
  version : after.store.structureVersion = before.store.structureVersion + 1

/-- What is moved with a record is what has it in its chain. -/
theorem mem_chain_iff {t : Store} (hs : t.Linked) {chains : String → Chain}
    {levels : String → List (List Organization)} (hchains : ∀ x, t.ChainOf x (chains x))
    {id : String} (hid : t.organizations.contains id = true) (x : String) :
    id ∈ chains x ↔ x = id ∨ (Views.ofWalks chains levels).above id x = true := by
  have habove : (Views.ofWalks chains levels).above id x = true ↔ id ∈ chains x ∧ id ≠ x := by
    rw [← (hchains x).mem_dropLast]
    exact decide_eq_true_iff
  rw [habove]
  -- its own chain ends with the record, but it is not above itself
  by_cases hx : x = id
  · subst hx
    obtain ⟨front, hfront⟩ := hs.lineage hid
    rw [(hchains x).eq_of_lineage hfront]
    simp [hfront.mem_self]
  · simp [hx, Ne.symm hx]

theorem regrafted_of_moved {t : Surroundings} {stored : Organization} (hs : s.store.Linked)
    (ho : s.store.Holds o) (hroot : o.isRoot = false) (hmove : o.parentId ≠ some p)
    (hadmits : d.Admits s.store p o.id) (hid : stored.id = o.id)
    (hcreated : stored.created = o.created) (hp : stored.parentId = some p)
    (ht : t.store = s.store.moved o stored) {chains chains' : String → Chain}
    {levels levels' : String → List (List Organization)}
    (hchains : ∀ x, s.store.ChainOf x (chains x))
    (hchains' : ∀ x, t.store.ChainOf x (chains' x)) (setting : Setting) :
    d.Regrafted setting.undisturbed.environment s.next t.next (.ofWalks chains levels)
      (.ofWalks chains' levels') o stored p := by
  have hget : s.store.organizations.get? stored.id = some o := by
    rw [hid]
    exact ho
  have hwritten : t.store.organizations = s.store.organizations.insert stored.id stored := by
    rw [ht]
    rfl
  obtain ⟨chain, hlineage, hapart⟩ := hadmits.apart
  rw [← hid] at hapart
  have hchain : chains p = chain := (hchains p).eq_of_lineage hlineage
  -- no cycle comes about, so all chains lead to a root again
  have hlinked : t.store.Linked := by
    rw [ht]
    refine hs.moved hget hcreated fun q hq => ⟨chain, ?_, hapart⟩
    obtain rfl : p = q := Option.some.inj (hp.symm.trans hq)
    exact hlineage
  have hthrough (x : String) :
      o.id ∈ chains x ↔ x = o.id ∨ (Views.ofWalks chains levels).above o.id x = true :=
    mem_chain_iff hs hchains (Table.contains_of_get? ho) x
  have hstays {q : String} (hq : s.store.organizations.contains q = true) :
      t.store.organizations.contains q = true := by
    rw [hwritten]
    exact Table.contains_insert.2 (.inr hq)
  constructor
  case same => exact ⟨hid, hcreated, hp⟩
  case branch =>
    intro x hx
    have hmem : stored.id ∈ chains x := hid ▸ (hthrough x).2 hx
    have hmoved := (hchains x).moved hwritten hp hlineage hapart hmem
    rw [← hchain, hid] at hmoved
    exact (hchains' x).unique hmoved
  case others =>
    intro x hne hnot
    have hmem : stored.id ∉ chains x := by
      rw [hid, hthrough, hnot]
      simp [hne]
    exact (hchains' x).unique ((hchains x).kept hwritten (Table.contains_of_get? hget) hmem)
  case arrived =>
    have hparent := Store.contains_of_mem hlineage hlineage.mem_self
    exact ⟨_, _, run_children_list hs hparent setting,
      run_children_list hlinked (hstays hparent) setting,
      hs.filed_kids hlinked ho hid hwritten hp hmove⟩
  case gone =>
    obtain ⟨q, hq⟩ : ∃ q, o.parentId = some q :=
      Option.isSome_iff_exists.1 (Option.isNone_eq_false_iff.1 hroot)
    have hne : q ≠ p := fun heq => hmove (heq ▸ hq)
    -- the old parent is there, as the record has a lineage
    obtain ⟨above, habove, -⟩ := hs.lineage_of_parent ho hq
    have hold := Store.contains_of_mem habove habove.mem_self
    exact ⟨q, _, _, hq, run_children_list hs hold setting,
      run_children_list hlinked (hstays hold) setting,
      hs.unfiled_kids hlinked ho hid hwritten hp hq hne⟩
  case version =>
    show t.store.structureVersion = _
    rw [ht]
    rfl

/-- A move in all its outcomes, by the answers before and after it. -/
theorem seen_of_relocated {t : Surroundings} {candidate : Organization}
    {outcome : Except OrganizationError Organization} (hs : s.store.Linked) (ht : t.store.Linked)
    (h : d.Relocated s.next o candidate p (outcome, t.next)) (ho : s.store.Holds o)
    (hroot : o.isRoot = false) (hid : candidate.id = o.id) (hp : candidate.parentId = some p)
    (hmove : o.parentId ≠ some p) (setting : Setting) :
    ∃ v v' : Views, v.Given d.config.walkRetryLimit setting.undisturbed.environment s.next ∧
      v'.Given d.config.walkRetryLimit setting.undisturbed.environment t.next ∧
      ((∃ e, outcome = .error e ∧ e.kind = .badRequest) ↔ ¬ d.Welcomes s.next.store v p o.id) ∧
      (∀ e, outcome = .error e → (e.kind = .badRequest ∨ e.kind = .conflict) ∧
        t.next.store = s.next.store) ∧
      ∀ stored, outcome = .ok stored →
        d.Regrafted setting.undisturbed.environment s.next t.next v v' o stored p := by
  obtain ⟨chains, levels, hchains, hlevels, hgiven⟩ :=
    Hierarchy.exists_walks setting hs d.config.walkRetryLimit
  obtain ⟨chains', levels', hchains', -, hgiven'⟩ :=
    Hierarchy.exists_walks setting ht d.config.walkRetryLimit
  refine ⟨.ofWalks chains levels, .ofWalks chains' levels', hgiven, hgiven', ?_⟩
  have hwelcomes : d.Welcomes s.next.store (.ofWalks chains levels) p o.id ↔
      d.Admits s.next.store p o.id :=
    welcomes_iff hs hchains hlevels (Table.contains_of_get? ho)
  rw [hwelcomes]
  cases h with
  | @barred e hno he hrun =>
    obtain ⟨rfl, hsame⟩ := Prod.mk.inj hrun
    refine ⟨iff_of_true ⟨e, rfl, he⟩ hno, fun e' herror => ?_, fun stored hok => nomatch hok⟩
    obtain rfl : e = e' := Except.error.inj herror
    exact ⟨.inl he, congrArg Surroundings.store hsame⟩
  | @conflicting e hadmits he hrun =>
    obtain ⟨rfl, hsame⟩ := Prod.mk.inj hrun
    refine ⟨iff_of_false ?_ (not_not_intro hadmits), fun e' herror => ?_,
      fun stored hok => nomatch hok⟩
    · rintro ⟨e', herror, he'⟩
      rw [← Except.error.inj herror, he] at he'
      cases he'
    · obtain rfl : e = e' := Except.error.inj herror
      exact ⟨.inr he, congrArg Surroundings.store hsame⟩
  | moved hadmits hrun =>
    obtain ⟨rfl, hmoved⟩ := Prod.mk.inj hrun
    refine ⟨iff_of_false ?_ (not_not_intro hadmits), ?_, fun stored hok => ?_⟩
    · rintro ⟨e, herror, -⟩
      cases herror
    · intro e herror
      cases herror
    · obtain rfl := Except.ok.inj hok
      have hstore : t.store = s.store.moved o (candidate.asNext o) :=
        congrArg Surroundings.store hmoved
      have hidNext : (candidate.asNext o).id = o.id := hid
      exact regrafted_of_moved hs ho hroot hmove hadmits hidNext rfl hp hstore hchains hchains'
        setting

/-- **Moves.** After whatever changes of an empty store, let an organization that is no root be
updated under its own name, with a valid name and valid attributes, so that it gets another parent.
That is a bad request exactly if the parent is missing or disabled, is the organization or stands
below it, has another root, or is so deep that what comes along would exceed the limit. Apart from
that it can only conflict with others, and whatever is refused has changed nothing.

If it succeeds, then the chain of the organization, and of all that stands below it, is the chain of
the new parent and then goes on from the organization as before. All other chains stay. The
organization is a child of the new parent, at the place of its creation, and of the old one no
longer, and the structure version has grown by one. -/
theorem update_moves (d : Directory) (first : Int64) (requests : List Request) (setting : Setting)
    (now : Timestamp) {o new : Organization} {p name : String}
    (ho : (d.after first requests).store.Holds o) (hroot : o.isRoot = false)
    (hp : new.parentId = some p) (hmove : o.parentId ≠ some p)
    (hname : d.validName new.name = .ok name)
    (hattributes : validAttributes new.attributes = .ok ()) :
    let s := (d.after first requests).next
    let env := setting.undisturbed.environment
    let run := (d.update now o.id o.name new).run env s
    let t := run.2.next
    ∃ v v' : Views, v.Given d.config.walkRetryLimit env s ∧ v'.Given d.config.walkRetryLimit env t ∧
      ((∃ e, run.1 = .error e ∧ e.kind = .badRequest) ↔ ¬ d.Welcomes s.store v p o.id) ∧
      (∀ e, run.1 = .error e → (e.kind = .badRequest ∨ e.kind = .conflict) ∧ t.store = s.store) ∧
      ∀ stored, run.1 = .ok stored → d.Regrafted env s t v v' o stored p := by
  have htidy : d.Tidy (d.after first requests).store :=
    (after_invariant d.tidy_empty (fun _ => tidy_step) first requests).2
  have hs : (d.after first requests).store.Consistent := after_consistent first requests
  have hnext : (d.after first requests).next.store.Linked := hs.toLinked
  have hrelocated : d.Relocated (d.after first requests).next o _ p
      ((d.update now o.id o.name new).run setting.still (d.after first requests).next) :=
    update_relocated hnext ho (htidy.proper o ho).trimmed hroot hp hmove hname hattributes now
  rw [setting.run_still] at hrelocated
  have ht := setting.undisturbed.consistent_run (d.update now o.id o.name new)
    (s := (d.after first requests).next) hs
  intro s env run t
  exact seen_of_relocated hs.toLinked ht.toLinked hrelocated ho hroot rfl hp hmove setting

/-- The longer of two branches, as it is stored before it is moved below the other. -/
def longBranch : Organization :=
  { Organization.new .epoch "Long" with id := "long", parentId := some "root", version := 1 }

/-- The leaf of the branch comes along. -/
theorem update_moves_longBranch :
    let d := limitedTo 3
    let new := { longBranch with parentId := some "short" }
    let s := (d.after 1 branchMoved.dropLast).next
    let env := Setting.plain.undisturbed.environment
    let run := (d.update .epoch longBranch.id longBranch.name new).run env s
    ∃ (v v' : Views) (stored : Organization), v.Given d.config.walkRetryLimit env s ∧
      v'.Given d.config.walkRetryLimit env run.2.next ∧ run.1 = .ok stored ∧
      d.Regrafted env s run.2.next v v' longBranch stored "short" ∧
      v.chain "leaf" = ["root", "long", "leaf"] ∧
      v'.chain "leaf" = ["root", "short", "long", "leaf"] := by
  intro d new s env run
  have hheld : (d.after 1 branchMoved.dropLast).store.Holds longBranch := by decide +kernel
  have htrimmed : Text.trimmed "Long" = "Long" := by decide +kernel
  have hname : d.validName new.name = .ok "Long" := by
    show d.validName "Long" = _
    rw [validName, htrimmed, if_neg (by decide), if_neg (by decide)]
  obtain ⟨v, v', hgiven, hgiven', -, -, hmoved⟩ := update_moves d 1 branchMoved.dropLast .plain
    .epoch hheld rfl (rfl : new.parentId = some "short") (by decide) hname rfl
  -- the answers are computed as they stand, before anything is known of them
  have hread {answer : Except OrganizationError Chain} {c c' : Chain}
      (hc : answer.toOption = some c') (hanswer : answer = .ok c) : c = c' := by
    subst hanswer
    exact Option.some.inj hc
  obtain ⟨stored, hstored⟩ : ∃ stored, run.1 = .ok stored := by
    have hok : run.1.toOption.isSome = true := by decide +kernel
    revert hok
    generalize run.1 = outcome
    cases outcome with
    | error e => exact fun hok => nomatch hok
    | ok stored => exact fun _ => ⟨stored, rfl⟩
  exact ⟨v, v', stored, hgiven, hgiven', hstored, hmoved stored hstored,
    hread (by decide +kernel) (hgiven.chain "leaf"),
    hread (by decide +kernel) (hgiven'.chain "leaf")⟩

end OrgForest.Directory
