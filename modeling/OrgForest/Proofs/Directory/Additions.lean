import OrgForest.Proofs.Directory.Depth
import OrgForest.Proofs.Directory.Tenancy
import OrgForest.Proofs.Store.Moved

/-!
# Additions

An organization that is to be added has its name and its attributes checked, then its parent, and
last it is looked for others of its name. The checks ask for one chain of the parent and, where
names are unique within hierarchies, for one chain of each organization of that name. Whatever the
tree and whatever the directory allows, they come to four conditions, of which only the last one is
about others: an addition conflicts with what is stored if it fails for the last condition alone,
and is a bad request if any other fails. What is added stands at the end of the chain of its parent,
and no record is touched for it.

* `Directory.Entered`, `Directory.add_entered` — all that can become of an addition whose tenant is
  not refused;
* `Directory.Acceptable`, `Directory.Taken` — the conditions, in terms of the answers that the
  directory gives;
* `Directory.Joined`, `Directory.joined_of_added` — what an addition changes;
* `Directory.add_accepts` — additions to a directory.
-/

namespace OrgForest

/-- A binding that can be had conflicts with nothing, if the organization has none yet. -/
theorem Store.Bound.conflict?_eq_none {store : Store} (h : store.Bound) {id : String}
    {b : TenantBinding} (hnew : store.organizations.contains id = false)
    (hfree : ¬ store.Collides id b) : store.conflict? id b = none := by
  rw [Store.Collides, not_or, not_not] at hfree
  obtain ⟨hown, hnone⟩ := hfree
  -- whoever holds a part of the binding in the indexes holds it in the table of bindings as well
  refine Store.conflict?_eq_none.2 ⟨hown, ?_, ?_, ?_⟩
  · rw [Bool.eq_false_iff, ne_eq, h.bound, hnew]
    exact Bool.false_ne_true
  · rw [Option.eq_none_iff_forall_not_mem]
    intro x hx
    obtain ⟨held, hheld, hsame⟩ := (h.domains b.tenantDomain x).1 hx
    exact hnone ⟨x, held, hheld, .inl hsame⟩
  · rw [Option.eq_none_iff_forall_not_mem]
    intro x hx
    obtain ⟨held, hheld, hsame⟩ := (h.tenantIds b.tenantId x).1 hx
    exact hnone ⟨x, held, hheld, .inr hsame⟩

namespace Directory

open Hierarchy (Views)

variable {d : Directory} {setting : Setting} {s : Surroundings} {o : Organization}
  {now : Timestamp} {fresh : String} {binding : TenantBinding}

/-! ## What becomes of an addition -/

/-- All that can become of an addition whose tenant is not refused: it is a bad request, and the
organization is not eligible anywhere; or it is eligible, and its name is taken, or it is added. -/
inductive Entered (d : Directory) (s : Surroundings) (now : Timestamp) (fresh : String)
    (o : Organization) (binding : TenantBinding)
    (run : Except OrganizationError Organization × Surroundings) : Prop where
  | barred {e : OrganizationError} (hno : ∀ root, ¬ d.Eligible s.store o root)
      (he : e.kind = .badRequest) (hrun : run = (.error e, s))
  | conflicting {e : OrganizationError} {root : Option String}
      (heligible : d.Eligible s.store o root)
      (htaken : ¬ Free d.config.nameScope s.store (Text.trimmed o.name) root o.isRoot none)
      (he : e.kind = .conflict) (hrun : run = (.error e, s))
  | added {root : Option String} {nextTenantId : Int64} (heligible : d.Eligible s.store o root)
      (hfree : Free d.config.nameScope s.store (Text.trimmed o.name) root o.isRoot none)
      (hrun : run = (.ok (draft now fresh o).asFirst,
        { s with nextTenantId, store := s.store.added (draft now fresh o).asFirst binding }))

theorem add_entered (hs : s.store.Consistent) (hnew : s.store.organizations.contains fresh = false)
    (hprovided : (setting.provisioner (draft now fresh o) s.nextTenantId).1 = .ok binding)
    (hfree : ¬ s.store.Collides fresh binding) :
    d.Entered s now fresh o binding ((d.add now fresh o).run setting.still s) := by
  refine add_cases hs.toLinked now fresh o (fun hno e he => .barred hno he rfl)
    (fun root heligible htaken e he => .conflicting heligible htaken he rfl) ?_
  intro root heligible hname
  -- the parent is there, and the tenant can be had, so the store takes the record
  have hparent : ∀ p, (draft now fresh o).parentId = some p →
      s.store.organizations.contains p = true := by
    intro p hp
    change o.parentId = some p at hp
    rcases heligible.placed with ⟨htop, -⟩ | ⟨q, r, hq, -, hhosts⟩
    · rw [htop] at hp
      cases hp
    · obtain rfl : q = p := Option.some.inj (hq.symm.trans hp)
      exact Store.contains_of_active hhosts.active
  have hinsert : s.store.insert (draft now fresh o) binding =
      (.inserted (draft now fresh o).asFirst,
        s.store.added (draft now fresh o).asFirst binding) :=
    Store.insert_eq hnew hparent (hs.toBound.conflict?_eq_none hnew hfree)
  obtain ⟨nextTenantId, hprovision⟩ : ∃ n,
      setting.provisioner (draft now fresh o) s.nextTenantId = (.ok binding, n) :=
    ⟨_, Prod.ext hprovided rfl⟩
  have hrun := run_provided hprovision
  rw [hinsert] at hrun
  exact .added heligible hname hrun

/-! ## The conditions -/

/-- An organization that may be added if its name is free, by what the directory answers: without
the blanks around it the name is neither empty nor too long, the keys of the attributes are distinct
and not blank, and the parent, if there is to be one, is there and active, and not so deep that its
child would exceed the limit. -/
structure Acceptable (d : Directory) (s : Store) (v : Views) (o : Organization) : Prop where
  named : Text.trimmed o.name ≠ ""
  short : (Text.trimmed o.name).length ≤ d.config.maxNameLength
  keyed : Keyed o.attributes
  parent : ∀ p, o.parentId = some p → s.Active p ∧
    ∀ limit, d.config.maxDepth = some limit → v.depth p + 1 ≤ limit

/-- Whether the name of an organization that is to be added has to differ from that of another:
always, or if both are roots, or if the other has the root of the parent. -/
def SharesScope (d : Directory) (v : Views) (o other : Organization) : Prop :=
  match d.config.nameScope, o.parentId with
  | .global, _ => True
  | .hierarchy, none => other.isRoot = true
  | .hierarchy, some p => (v.chain other.id).head? = (v.chain p).head?

/-- An organization has the name already, where it has to differ. -/
def Taken (d : Directory) (s : Store) (v : Views) (o : Organization) : Prop :=
  ∃ other, s.Holds other ∧ other.name = Text.trimmed o.name ∧ d.SharesScope v o other

theorem validName_trimmed {raw : String} : d.validName raw = .ok (Text.trimmed raw) ↔
    Text.trimmed raw ≠ "" ∧ (Text.trimmed raw).length ≤ d.config.maxNameLength := by
  constructor
  · intro h
    exact (validName_eq_ok h).2
  · rintro ⟨hnamed, hshort⟩
    rw [validName, if_neg hnamed, if_neg (Nat.not_lt.2 hshort)]

section Conditions

variable {t : Store} (hs : t.Linked) {chains : String → Chain}
  {levels : String → List (List Organization)} (hchains : ∀ x, t.ChainOf x (chains x))

include hs hchains

/-- The first conditions are those of the checks. -/
theorem acceptable_iff :
    d.Acceptable t (.ofWalks chains levels) o ↔ ∃ root, d.Eligible t o root := by
  constructor
  · intro h
    have hname : d.validName o.name = .ok (Text.trimmed o.name) :=
      validName_trimmed.2 ⟨h.named, h.short⟩
    have hkeys : validAttributes o.attributes = .ok () := validAttributes_eq_ok.2 h.keyed
    cases hp : o.parentId with
    | none => exact ⟨none, hname, hkeys, .inl ⟨hp, rfl⟩⟩
    | some p =>
      obtain ⟨hactive, hshallow⟩ := h.parent p hp
      obtain ⟨root, chain, hlineage, hroot⟩ := hs.inHierarchy (Store.contains_of_active hactive)
      obtain rfl : chains p = chain := (hchains p).eq_of_lineage hlineage
      refine ⟨some root, hname, hkeys, .inr ⟨p, root, hp, rfl, hactive, chains p, hlineage, hroot,
        fun limit hlimit => ?_⟩⟩
      -- the limit is about the chain of the parent, and the answers give its depth
      have hfits : ((chains p).length : Int) - 1 + 1 ≤ limit := hshallow limit hlimit
      omega
  · rintro ⟨root, h⟩
    obtain ⟨hnamed, hshort⟩ := validName_trimmed.1 h.named
    refine ⟨hnamed, hshort, validAttributes_eq_ok.1 h.keyed, fun p hp => ?_⟩
    rcases h.placed with ⟨htop, -⟩ | ⟨q, r, hq, -, hhosts⟩
    · rw [htop] at hp
      cases hp
    · obtain rfl : q = p := Option.some.inj (hq.symm.trans hp)
      refine ⟨hhosts.active, fun limit hlimit => ?_⟩
      obtain ⟨chain, hlineage, -, hfits⟩ := hhosts.placed
      obtain rfl : chains q = chain := (hchains q).eq_of_lineage hlineage
      have hfit := hfits limit hlimit
      show ((chains q).length : Int) - 1 + 1 ≤ limit
      omega

/-- Others of the name are looked for where it has to differ. -/
theorem clashes_iff {root : Option String} (heligible : d.Eligible t o root) {other : Organization}
    (hother : t.Holds other) :
    Clashes d.config.nameScope t root o.isRoot other ↔
      d.SharesScope (.ofWalks chains levels) o other := by
  unfold Clashes SharesScope
  cases d.config.nameScope with
  | global =>
    -- every name counts
    exact Iff.rfl
  | hierarchy =>
    rcases heligible.placed with ⟨htop, rfl⟩ | ⟨p, root, hp, rfl, hhosts⟩
    · simp [Organization.isRoot, htop]
    · -- both stand in one hierarchy exactly if their chains begin alike
      obtain ⟨chain, hlineage, hroot, -⟩ := hhosts.placed
      obtain rfl : chains p = chain := (hchains p).eq_of_lineage hlineage
      obtain ⟨chain', hlineage'⟩ := hs.lineage (Table.contains_of_get? hother)
      obtain rfl : chains other.id = chain' := (hchains other.id).eq_of_lineage hlineage'
      have hbelow : o.isRoot = false := by rw [Organization.isRoot, hp]; rfl
      simp only [hbelow, hp, Bool.false_eq_true, false_and, false_or, Option.some_inj]
      show _ ↔ (chains other.id).head? = (chains p).head?
      rw [hroot]
      constructor
      · rintro ⟨_, rfl, chain, hchain, hhead⟩
        rwa [hlineage'.unique hchain]
      · intro hhead
        exact ⟨root, rfl, chains other.id, hlineage', hhead⟩

theorem taken_iff {root : Option String} (heligible : d.Eligible t o root) :
    d.Taken t (.ofWalks chains levels) o ↔
      ¬ Free d.config.nameScope t (Text.trimmed o.name) root o.isRoot none := by
  unfold Taken Free
  push Not
  constructor
  · rintro ⟨other, hother, hname, hshares⟩
    exact ⟨other, hother, hname, nofun, (clashes_iff hs hchains heligible hother).2 hshares⟩
  · rintro ⟨other, hother, hname, -, hclash⟩
    exact ⟨other, hother, hname, (clashes_iff hs hchains heligible hother).1 hclash⟩

end Conditions

/-! ## What an addition changes -/

/-- An addition as it is seen in the answers of the directory before and after it. -/
structure Joined (before after : Surroundings) (v v' : Views) (now : Timestamp) (fresh : String)
    (o stored : Organization) : Prop where
  /-- The record has an id of its own, its name in the form in which names are stored, no
  projections, and the first version. -/
  record : stored = { o.bare with
    id := fresh
    name := Text.trimmed o.name
    created := now
    lastModified := now
    version := 1 }
  /-- It stands below its parent, or at the top. -/
  chain : v'.chain fresh = (o.parentId.map v.chain).getD [] ++ [fresh]
  /-- No other record is touched. -/
  records : ∀ x, after.store.organizations.get? x =
    if x = fresh then some stored else before.store.organizations.get? x
  /-- Nothing else is moved. -/
  others : ∀ x, x ≠ fresh → v'.chain x = v.chain x

theorem joined_of_added {t : Surroundings} {root : Option String}
    (hnew : s.store.organizations.contains fresh = false) (heligible : d.Eligible s.store o root)
    (ht : t.store = s.store.added (draft now fresh o).asFirst binding)
    {chains chains' : String → Chain} {levels levels' : String → List (List Organization)}
    (hchains : ∀ x, s.store.ChainOf x (chains x)) (hchains' : ∀ x, t.store.ChainOf x (chains' x)) :
    Joined s.next t.next (.ofWalks chains levels) (.ofWalks chains' levels') now fresh o
      (draft now fresh o).asFirst := by
  have hwritten : t.store.organizations =
      s.store.organizations.insert (draft now fresh o).asFirst.id (draft now fresh o).asFirst := by
    rw [ht]
    rfl
  constructor
  case record => rfl
  case chain =>
    show chains' fresh = (o.parentId.map chains).getD [] ++ [fresh]
    rcases heligible.placed with ⟨htop, -⟩ | ⟨p, r, hp, -, hhosts⟩
    · rw [htop]
      exact (hchains' fresh).eq_of_lineage (Store.lineage_of_root hwritten htop)
    · obtain ⟨chain, hlineage, -⟩ := hhosts.placed
      obtain rfl : chains p = chain := (hchains p).eq_of_lineage hlineage
      rw [hp]
      exact (hchains' fresh).eq_of_lineage
        (Store.lineage_of_child hwritten hp hlineage (Store.not_mem_of_new hlineage hnew))
  case records =>
    intro x
    show t.store.organizations.get? x = _
    rw [hwritten, Table.get?_insert]
    rfl
  case others =>
    intro x hx
    show chains' x = chains x
    -- whoever has a chain keeps it, and an id that was not in use is still not
    rcases hchains x with hlineage | ⟨hunknown, hnil⟩
    · exact (hchains' x).eq_of_lineage (Store.lineage_of_new hwritten hnew hlineage)
    · have hother : x ≠ (draft now fresh o).asFirst.id := hx
      refine (hchains' x).unique (.inr ⟨?_, hnil⟩)
      rw [Store.parentId?_of_written hwritten, if_neg hother, hunknown]

/-! ## Additions to a directory -/

/-- How an addition is to be answered: it succeeds if the organization is acceptable and its name is
free, conflicts with others if only its name is taken, and is a bad request if the organization is
not acceptable. -/
structure Judged (d : Directory) (s : Store) (v : Views) (o : Organization)
    (outcome : Except OrganizationError Organization) : Prop where
  made : (∃ stored, outcome = .ok stored) ↔ d.Acceptable s v o ∧ ¬ d.Taken s v o
  conflict : (∃ e, outcome = .error e ∧ e.kind = .conflict) ↔ d.Acceptable s v o ∧ d.Taken s v o
  badRequest : (∃ e, outcome = .error e ∧ e.kind = .badRequest) ↔ ¬ d.Acceptable s v o

/-- Each outcome comes about under its own condition, and no two conditions hold at once. -/
theorem judged_of_entered {run : Except OrganizationError Organization × Surroundings}
    (hs : s.store.Linked) (h : d.Entered s now fresh o binding run) {chains : String → Chain}
    {levels : String → List (List Organization)} (hchains : ∀ x, s.store.ChainOf x (chains x)) :
    d.Judged s.store (.ofWalks chains levels) o run.1 := by
  have hacceptable : d.Acceptable s.store (.ofWalks chains levels) o ↔
      ∃ root, d.Eligible s.store o root := acceptable_iff hs hchains
  cases h with
  | barred hno he hrun =>
    have hnot : ¬ d.Acceptable s.store (.ofWalks chains levels) o := by
      rw [hacceptable]
      rintro ⟨root, heligible⟩
      exact hno root heligible
    rw [hrun]
    constructor <;> simp [he, hnot]
  | conflicting heligible htaken he hrun =>
    have hyes : d.Acceptable s.store (.ofWalks chains levels) o := hacceptable.2 ⟨_, heligible⟩
    have htaken' : d.Taken s.store (.ofWalks chains levels) o :=
      (taken_iff hs hchains heligible).2 htaken
    rw [hrun]
    constructor <;> simp [he, hyes, htaken']
  | added heligible hfree hrun =>
    have hyes : d.Acceptable s.store (.ofWalks chains levels) o := hacceptable.2 ⟨_, heligible⟩
    have hfree' : ¬ d.Taken s.store (.ofWalks chains levels) o := by
      intro htaken
      exact (taken_iff hs hchains heligible).1 htaken hfree
    rw [hrun]
    constructor <;> simp [hyes, hfree']

/-- An addition in all its outcomes, by the answers before and after it. -/
theorem seen_of_entered {t : Surroundings} {outcome : Except OrganizationError Organization}
    (hs : s.store.Linked) (ht : t.store.Linked)
    (hnew : s.store.organizations.contains fresh = false)
    (h : d.Entered s.next now fresh o binding (outcome, t.next)) (setting : Setting) :
    ∃ v v' : Views, v.Given d.config.walkRetryLimit setting.undisturbed.environment s.next ∧
      v'.Given d.config.walkRetryLimit setting.undisturbed.environment t.next ∧
      d.Judged s.next.store v o outcome ∧
      (∀ e, outcome = .error e → t.next.store = s.next.store) ∧
      ∀ stored, outcome = .ok stored → Joined s.next t.next v v' now fresh o stored := by
  obtain ⟨chains, levels, hchains, -, hgiven⟩ :=
    Hierarchy.exists_walks setting hs d.config.walkRetryLimit
  obtain ⟨chains', levels', hchains', -, hgiven'⟩ :=
    Hierarchy.exists_walks setting ht d.config.walkRetryLimit
  have hnext : s.next.store.Linked := hs
  -- the conditions are about the answers before, the record and its place about those after
  refine ⟨.ofWalks chains levels, .ofWalks chains' levels', hgiven, hgiven',
    judged_of_entered hnext h hchains, ?_⟩
  cases h with
  | barred _ _ hrun =>
    obtain ⟨rfl, hsame⟩ := Prod.mk.inj hrun
    exact ⟨fun _ _ => congrArg Surroundings.store hsame, fun _ hok => nomatch hok⟩
  | conflicting _ _ _ hrun =>
    obtain ⟨rfl, hsame⟩ := Prod.mk.inj hrun
    exact ⟨fun _ _ => congrArg Surroundings.store hsame, fun _ hok => nomatch hok⟩
  | added heligible _ hrun =>
    obtain ⟨rfl, hadded⟩ := Prod.mk.inj hrun
    have hstore : t.store = s.store.added (draft now fresh o).asFirst binding :=
      congrArg Surroundings.store hadded
    refine ⟨fun _ herror => (nomatch herror), fun stored hok => ?_⟩
    obtain rfl := Except.ok.inj hok
    exact joined_of_added hnew heligible hstore hchains hchains'

/-- **Additions.** After whatever changes of an empty store, let an organization be added under an
id that is not in use, with a tenant that can be had. That succeeds exactly if its name, without the
blanks around it, is neither empty nor too long, the keys of its attributes are distinct and not
blank, its parent, if it is to have one, is there and active and not too deep, and no organization
from which its name has to differ has this name. If only the last condition fails, there is a
conflict, and if any other fails, it is a bad request; whatever is refused has changed nothing.

If it succeeds, then the record has the first version, the trimmed name, and all else as it was
given but for the projections. Its chain is that of its parent with its own id at the end. All other
records and all other chains are as before. -/
theorem add_accepts (d : Directory) (first : Int64) (requests : List Request) (setting : Setting)
    (now : Timestamp) (o : Organization) {fresh : String} {binding : TenantBinding}
    (hnew : (d.after first requests).store.organizations.contains fresh = false)
    (hprovided : (setting.provisioner (draft now fresh o)
      (d.after first requests).nextTenantId).1 = .ok binding)
    (hfree : ¬ (d.after first requests).store.Collides fresh binding) :
    let s := (d.after first requests).next
    let env := setting.undisturbed.environment
    let run := (d.add now fresh o).run env s
    let t := run.2.next
    ∃ v v' : Views, v.Given d.config.walkRetryLimit env s ∧ v'.Given d.config.walkRetryLimit env t ∧
      d.Judged s.store v o run.1 ∧ (∀ e, run.1 = .error e → t.store = s.store) ∧
      ∀ stored, run.1 = .ok stored → Joined s t v v' now fresh o stored := by
  have hs : (d.after first requests).store.Consistent := after_consistent first requests
  have hentered : d.Entered (d.after first requests).next now fresh o binding
      ((d.add now fresh o).run setting.still (d.after first requests).next) :=
    add_entered hs hnew hprovided hfree
  rw [setting.run_still] at hentered
  have ht := setting.undisturbed.consistent_run (d.add now fresh o)
    (s := (d.after first requests).next) hs
  intro s env run t
  exact seen_of_entered hs.toLinked ht.toLinked hnew hentered setting

/-- Two hierarchies, in one of which there is a team. -/
def teamElsewhere : List Request :=
  let child (name parent : String) : Organization :=
    { Organization.new .epoch name with parentId := some parent }
  List.map Mutation.plain [
    .add .epoch "north" (.new .epoch "North"),
    .add .epoch "south" (.new .epoch "South"),
    .add .epoch "team" (child "Team" "south"),
    .add .epoch "lab" (child "Lab" "north")]

/-- Another team is added in the other hierarchy, as deep as it may be. -/
theorem add_accepts_teamElsewhere :
    let d := limitedTo 2
    let s := (d.after 1 teamElsewhere).next
    let env := Setting.plain.undisturbed.environment
    let o := { Organization.new .epoch " Team " with parentId := some "lab" }
    let run := (d.add .epoch "new" o).run env s
    ∃ (v v' : Views) (stored : Organization), v.Given d.config.walkRetryLimit env s ∧
      v'.Given d.config.walkRetryLimit env run.2.next ∧ run.1 = .ok stored ∧
      d.Acceptable s.store v o ∧ ¬ d.Taken s.store v o ∧
      stored.name = "Team" ∧ v'.chain "new" = ["north", "lab", "new"] := by
  intro d s env o run
  have hs : (d.after 1 teamElsewhere).store.Consistent := after_consistent 1 teamElsewhere
  obtain ⟨binding, hprovided⟩ : ∃ binding, (Setting.plain.provisioner (draft .epoch "new" o)
      (d.after 1 teamElsewhere).nextTenantId).1 = .ok binding := ⟨_, rfl⟩
  have hfree : ¬ (d.after 1 teamElsewhere).store.Collides "new" binding := by
    intro hcollides
    obtain rfl := Except.ok.inj hprovided
    exact hs.toBound.conflict?_ne_none hcollides
      (Option.isNone_iff_eq_none.1 (by decide +kernel))
  obtain ⟨v, v', hgiven, hgiven', hjudged, -, hmade⟩ :=
    add_accepts d 1 teamElsewhere .plain .epoch o (by decide +kernel) hprovided hfree
  -- the answers are computed as they stand, before anything is known of them
  have hread : run.1.toOption.isSome = true := by decide +kernel
  obtain ⟨stored, hsome⟩ := Option.isSome_iff_exists.1 hread
  have hstored : run.1 = .ok stored := toOption_eq_some.1 hsome
  obtain ⟨hacceptable, hfree⟩ := hjudged.made.1 ⟨stored, hstored⟩
  have hname : stored.name = "Team" := by
    rw [(hmade stored hstored).record]
    decide +kernel
  have hchain : v'.chain "new" = ["north", "lab", "new"] :=
    Except.ok.inj ((hgiven'.chain "new").symm.trans (toOption_eq_some.1 (by decide +kernel)))
  exact ⟨v, v', stored, hgiven, hgiven', hstored, hacceptable, hfree, hname, hchain⟩

end Directory

end OrgForest
