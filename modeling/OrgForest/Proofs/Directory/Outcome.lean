import OrgForest.Proofs.Directory.Fair
import OrgForest.Proofs.Patch.Keys
import OrgForest.Proofs.Store.Consistent
import OrgForest.Proofs.Text.Trim

/-!
# What becomes of a change

A change of a directory looks things up, and each look-up may refuse it. What passes them all comes
to one write, of a record about which a good deal is known by then. Where nobody disturbs the change
nothing has happened since, so the store has no reason to refuse the write of a record that is
there; whether a new one finds its id and its tenant unused, only the store can tell.

Each kind of change has one lemma here that says all that can become of it. What holds of changes is
proved from these lemmas, which are the last ones to follow the look-ups of a change.

* `Directory.Proper` — records whose names and attributes are as they are stored;
* `Directory.Newcomer`, `Directory.Edit` — records that may be added, or written over others;
* `Directory.Revised`, `Directory.patch_revised`, `Directory.update_revised` — changes of records;
* `Directory.draft`, `Directory.Added`, `Directory.add_added` — additions;
* `Directory.Deleted`, `Directory.delete_deleted` — deletions.
-/

namespace OrgForest.Directory

variable {setting : Setting} {s : Surroundings} {d : Directory} {id : String}

/-! ## Names and attributes as they are stored -/

theorem validName_eq_ok {raw name : String} (h : d.validName raw = .ok name) :
    name = Text.trimmed raw ∧ name ≠ "" ∧ name.length ≤ d.config.maxNameLength := by
  unfold validName at h
  dsimp only at h
  split at h
  · cases h
  · next hblank =>
    split at h
    · cases h
    · next hlong =>
      obtain rfl := Except.ok.inj h
      exact ⟨rfl, hblank, Nat.le_of_not_lt hlong⟩

theorem trimmed_of_valid {raw name : String} (h : d.validName raw = .ok name) :
    Text.trimmed name = name := by
  rw [(validName_eq_ok h).1, Text.trimmed_trimmed]

/-- A record whose name and attributes are as they are stored: the name is trimmed, not blank and
not too long, and the keys are distinct and not blank. -/
structure Proper (d : Directory) (o : Organization) : Prop where
  trimmed : Text.trimmed o.name = o.name
  named : o.name ≠ ""
  short : o.name.length ≤ d.config.maxNameLength
  keyed : Keyed o.attributes

namespace Proper

variable {o p : Organization}

theorem of_valid {raw : String} (hname : d.validName raw = .ok o.name)
    (hkeyed : Keyed o.attributes) : d.Proper o := by
  obtain ⟨-, hnamed, hshort⟩ := validName_eq_ok hname
  exact ⟨trimmed_of_valid hname, hnamed, hshort, hkeyed⟩

/-- Nothing counts but the name and the attributes. -/
theorem congr (h : d.Proper o) (hname : p.name = o.name) (hkeyed : Keyed p.attributes) :
    d.Proper p := by
  refine ⟨?_, ?_, ?_, hkeyed⟩ <;> rw [hname]
  exacts [h.trimmed, h.named, h.short]

/-- A stored name is valid as it is. -/
theorem validName (h : d.Proper o) : d.validName o.name = .ok o.name := by
  rw [Directory.validName, h.trimmed, if_neg h.named, if_neg (Nat.not_lt.2 h.short)]

end Proper

/-! ## Records that may be written -/

/-- A record that may be added: its name and its attributes are as they are stored, the name is free
where the record comes to stand, and its parent, if it has one, may get a child. -/
structure Newcomer (d : Directory) (s : Store) (o : Organization) : Prop where
  fresh : s.organizations.contains o.id = false
  proper : d.Proper o
  atTop : o.parentId = none → Free d.config.nameScope s o.name none true none
  below : ∀ p, o.parentId = some p → ∃ root, d.Hosts s p 0 root ∧
    Free d.config.nameScope s o.name (some root) false none

/-- A record that may be written over another: its name and its attributes stay as they are stored,
any new name is free, any new parent admits it, and any new status settles. -/
structure Edit (d : Directory) (s : Store) (old new : Organization) : Prop where
  held : s.Holds old
  same : new.id = old.id
  proper : d.Proper old → d.Proper new
  renamed : new.name = old.name ∨ Text.trimmed new.name = new.name ∧
    ∃ root, s.InHierarchy root old.id ∧
      Free d.config.nameScope s new.name (some root) old.isRoot (some old.id)
  moved : new.parentId = old.parentId ∨
    ∃ p, new.parentId = some p ∧ old.isRoot = false ∧ d.Admits s p old.id
  settled : Settled s old.id old new

theorem Edit.isRoot {s : Store} {old new : Organization} (he : d.Edit s old new) :
    new.isRoot = old.isRoot := by
  rcases he.moved with hkept | ⟨p, hp, hroot, -⟩
  · rw [Organization.isRoot, hkept]
    rfl
  · rw [hroot, Organization.isRoot, hp]
    rfl

/-- The parent of a record after an edit is not below the record. -/
theorem Edit.apart {s : Store} {old new : Organization} (he : d.Edit s old new) (hs : s.Linked)
    {p : String} (hp : new.parentId = some p) :
    ∃ chain, Lineage s.parentId? p chain ∧ new.id ∉ chain := by
  rw [he.same]
  rcases he.moved with hkept | ⟨q, hq, -, hadmits⟩
  · -- the parent is the old one, and no id is its own ancestor
    have hup : s.parentId? old.id = some (some p) :=
      Store.parentId?_eq_some.2 ⟨old, he.held, by rw [← hkept, hp]⟩
    obtain ⟨front, hfront⟩ := hs.rooted old.id old he.held
    obtain ⟨chain, -, hchain⟩ := hfront.eq_of_child hup
    exact ⟨chain, hchain, Lineage.not_mem_above hup hchain⟩
  · rw [hp, Option.some_inj] at hq
    exact hq ▸ hadmits.apart

/-- The move that an edit makes, if it makes one, is not refused. -/
theorem Edit.moveOutcome {s : Store} {old new : Organization} (he : d.Edit s old new)
    (hs : s.Linked) : s.moveOutcome old.id new.parentId = .ok none := by
  refine Store.moveOutcome_eq_none.2 fun p hp => ?_
  obtain ⟨chain, hchain, hapart⟩ := he.apart hs hp
  refine ⟨Store.contains_of_mem hchain hchain.mem_self, ?_⟩
  rw [Store.isOnChain_eq hchain, ← he.same, decide_eq_false hapart]

/-! ## What is made of a record -/

/-- What a patch makes of a record: the patched record, with its name in the form in which names are
stored, and dated. -/
def Patched (d : Directory) (now : Timestamp) (ops : List Patch.Operation)
    (loaded candidate : Organization) : Prop :=
  ∃ patched name, Patch.apply ops loaded = .ok patched ∧
    (name = patched.name ∧ name = loaded.name ∨ d.validName patched.name = .ok name) ∧
      candidate = { patched with name, lastModified := now }

/-- A record with what can be edited of it replaced. -/
def edited (o : Organization) (name : String) (loaded : Organization) : Organization :=
  { loaded with
    name
    description := o.description
    status := o.status
    attributes := o.attributes
    parentId := o.parentId }

/-- What an update makes of a record: the record with what the caller gives for it, and dated. -/
def Replaced (d : Directory) (now : Timestamp) (o loaded candidate : Organization) : Prop :=
  ∃ name, d.validName o.name = .ok name ∧
    candidate = { edited o name loaded with lastModified := now }

/-! ## Changes of a record -/

/-- All that can become of a change of the record of an id: it is refused, it leaves the record as
it is, or it writes what it makes of the record. -/
inductive Revised (d : Directory) (s : Surroundings) (id : String)
    (Makes : Organization → Organization → Prop)
    (run : Except OrganizationError Organization × Surroundings) : Prop where
  | refused {e : OrganizationError} (he : e.kind ≠ .server) (hrun : run = (.error e, s))
  | left {current : Organization} (held : s.store.organizations.get? id = some current)
      (hrun : run = (.ok current, s))
  | written {current candidate : Organization}
      (held : s.store.organizations.get? id = some current)
      (hedit : d.Edit s.store current candidate) (hmakes : Makes current candidate)
      (hrun : run = (.ok (candidate.asNext current),
        { s with store := s.store.rewritten current (candidate.asNext current) }))

/-- Nothing has happened since the record was read, so its version is the expected one. -/
theorem run_write_still {current candidate : Organization} (hs : s.store.Linked)
    (he : d.Edit s.store current candidate) :
    (write candidate current.version).run setting.still s = (.ok (candidate.asNext current),
      { s with store := s.store.rewritten current (candidate.asNext current) }) := by
  have hget : s.store.organizations.get? candidate.id = some current := by
    rw [he.same]
    exact he.held
  have hcall : (Action.call (.update candidate current.version)).run setting.still s =
      ((s.store.update candidate current.version).1.mapError .storage,
        { s with store := (s.store.update candidate current.version).2 }) := rfl
  rw [write, Action.run_bind, hcall, Store.update_eq hget (he.moveOutcome hs)]
  rfl

/-- What is so when a patch is refused, when it has no effect, and when it writes what it has made
of the record, is so of every patch. -/
theorem patch_cases {E : Except OrganizationError Organization × Surroundings → Prop}
    (hs : s.store.Linked) (now : Timestamp) (id : String) (ops : List Patch.Operation)
    (hrefuse : ∀ e : OrganizationError, e.kind ≠ .server → E (.error e, s))
    (hleft : ∀ current patched, s.store.organizations.get? id = some current →
      Patch.apply ops current = .ok patched → patched.agreesWith current = true →
        E (.ok current, s))
    (hwritten : ∀ current candidate, s.store.organizations.get? id = some current →
      d.Edit s.store current candidate → Patched d now ops current candidate →
        E (.ok (candidate.asNext current),
          { s with store := s.store.rewritten current (candidate.asNext current) })) :
    E ((d.patch now id ops).run setting.still s) := by
  unfold patch
  refine (fair_holdWithParent id).run_bind (assures_holdWithParent id) hrefuse fun held hheld => ?_
  obtain ⟨_, current⟩ := held
  refine (fair_check _).run_bind (assures_check _) hrefuse fun patched hpatched => ?_
  obtain rfl : current.id = id := hs.ownId id current hheld
  have happlied : Patch.apply ops current = .ok patched := by
    cases happly : Patch.apply ops current with
    | error e =>
      rw [happly] at hpatched
      cases hpatched
    | ok c =>
      rw [happly] at hpatched
      exact congrArg _ (Except.ok.inj hpatched)
  split
  · -- a patch without effect
    next hsame => exact hleft current patched hheld happlied hsame
  extract_lets -underBinder go
  have hspared : Patch.Spared current patched := Patch.apply_spared happlied
  -- the rest, once the name is known in the form in which it is stored, and to be free
  have hgo (name : String)
      (hname : name = patched.name ∧ name = current.name ∨ d.validName patched.name = .ok name)
      (hrenamed : name = current.name ∨ Text.trimmed name = name ∧
        ∃ root, s.store.InHierarchy root current.id ∧
          Free d.config.nameScope s.store name (some root) current.isRoot (some current.id)) :
      E ((go { patched with name }).run setting.still s) := by
    refine (fair_vetStatus hs current.id current _).run_bind (assures_vetStatus hs current.id
      current _) hrefuse fun _ hsettled => ?_
    -- the patched attributes have not been checked, so they have to be as good as those before
    have hproper (hcurrent : d.Proper current) :
        d.Proper { patched with name, lastModified := now } := by
      have hkeyed : Keyed patched.attributes := Patch.apply_keyed happlied hcurrent.keyed
      rcases hname with ⟨-, hkept⟩ | hvalid
      · exact hcurrent.congr hkept hkeyed
      · exact .of_valid hvalid hkeyed
    have hedit : d.Edit s.store current { patched with name, lastModified := now } :=
      ⟨hheld, hspared.id, hproper, hrenamed, .inl hspared.parentId, hsettled.disabled,
        hsettled.activated⟩
    have hwrite : E ((write { patched with name, lastModified := now } current.version).run
        setting.still s) := by
      rw [run_write_still hs hedit]
      exact hwritten current _ hheld hedit ⟨patched, name, happlied, hname, rfl⟩
    exact hwrite
  split
  · next hname => exact hgo patched.name (.inl ⟨rfl, hname⟩) (.inl hname)
  · refine (fair_check _).run_bind (assures_check _) hrefuse fun name hname => ?_
    have hknown := Table.contains_of_get? hheld
    refine (fair_requireFreeName hs hknown).run_bind (assures_requireFreeName hs hknown) hrefuse
      fun _ hfree => ?_
    exact hgo name (.inr hname) (.inr ⟨trimmed_of_valid hname, hfree⟩)

theorem patch_revised (hs : s.store.Linked) (now : Timestamp) (id : String)
    (ops : List Patch.Operation) :
    d.Revised s id (Patched d now ops) ((d.patch now id ops).run setting.still s) :=
  patch_cases hs now id ops (fun _ he => .refused he rfl)
    (fun _ _ hheld _ _ => .left hheld rfl)
    (fun _ _ hheld hedit hmakes => .written hheld hedit hmakes rfl)

theorem update_revised (hs : s.store.Linked) (now : Timestamp) (id currentName : String)
    (o : Organization) :
    d.Revised s id (Replaced d now o) ((d.update now id currentName o).run setting.still s) := by
  have hrefuse (e : OrganizationError) (he : e.kind ≠ .server) :
      d.Revised s id (Replaced d now o) (.error e, s) := .refused he rfl
  unfold update
  refine (fair_check _).run_bind (assures_check _) hrefuse fun name hname => ?_
  refine (fair_check _).run_bind (assures_check _) hrefuse fun _ hkeys => ?_
  refine (fair_load id).run_bind (assures_load id) hrefuse fun current hcurrent => ?_
  obtain rfl : current.id = id := hs.ownId id current hcurrent
  extract_lets -underBinder go
  have hgo : d.Revised s current.id (Replaced d now o) ((go ()).run setting.still s) := by
    dsimp -zeta only [go]
    extract_lets -underBinder candidate finish
    -- the rest, once the new parent is known to admit the record
    have hfinish (hmoved : candidate.parentId = current.parentId ∨
        ∃ p, candidate.parentId = some p ∧ current.isRoot = false ∧
          d.Admits s.store p current.id) :
        d.Revised s current.id (Replaced d now o) ((finish ()).run setting.still s) := by
      dsimp -zeta only [finish]
      split
      · -- an edit without effect, once a move has been checked
        exact .left hcurrent rfl
      extract_lets -underBinder last
      have hlast (hrenamed : candidate.name = current.name ∨
          Text.trimmed candidate.name = candidate.name ∧
            ∃ root, s.store.InHierarchy root current.id ∧ Free d.config.nameScope s.store
              candidate.name (some root) current.isRoot (some current.id)) :
          d.Revised s current.id (Replaced d now o) ((last ()).run setting.still s) := by
        -- the time of the change is the only thing that is added to the vetted candidate
        refine (fair_vetStatus hs current.id current candidate).run_bind
          (assures_vetStatus hs current.id current candidate) hrefuse fun _ hsettled => ?_
        have hedit : d.Edit s.store current { candidate with lastModified := now } :=
          ⟨hcurrent, rfl, fun _ => .of_valid hname (validAttributes_eq_ok.1 hkeys), hrenamed,
            hmoved, hsettled.disabled, hsettled.activated⟩
        exact .written hcurrent hedit ⟨name, hname, rfl⟩ (run_write_still hs hedit)
      split
      · have hknown := Table.contains_of_get? hcurrent
        exact (fair_requireFreeName hs hknown).run_bind (assures_requireFreeName hs hknown) hrefuse
          fun _ hfree => hlast (.inr ⟨trimmed_of_valid hname, hfree⟩)
      · next hkept => exact hlast (.inl (Decidable.not_not.1 hkept))
    split
    · next hother =>
      refine (fair_vetMove hs hcurrent _).run_bind (assures_vetMove hs hcurrent _) hrefuse
        fun _ hvetted => hfinish (.inr ?_)
      -- a root that gets no parent is not moved at all
      refine hvetted.resolve_left fun ⟨hnone, hroot⟩ => hother ?_
      rw [hnone]
      exact (Option.isNone_iff_eq_none.1 hroot).symm
    · next hkept => exact hfinish (.inl (Decidable.not_not.1 hkept))
  split
  · -- the caller knows the organization under another name
    exact hrefuse _ nofun
  · exact hgo

/-! ## Additions -/

/-- What an addition makes of the organization that it is asked for: its name in the form in which
names are stored, an id of its own and the time. -/
def draft (now : Timestamp) (fresh : String) (o : Organization) : Organization :=
  { o.bare with
    id := fresh
    name := Text.trimmed o.name
    created := now
    lastModified := now
    version := 0 }

/-- All that can become of an addition: it is refused, or no tenant is provisioned for it, or the
store is asked to insert a record that may be added if its id is new. A tenant that has been
provisioned in vain is not given back. -/
inductive Added (d : Directory) (setting : Setting) (s : Surroundings) (candidate : Organization)
    (run : Except OrganizationError Organization × Surroundings) : Prop where
  | refused {e : OrganizationError} (he : e.kind ≠ .server) (hrun : run = (.error e, s))
  | unprovided {e : OrganizationError} {nextTenantId : Int64}
      (hprovision : setting.provisioner candidate s.nextTenantId = (.error e, nextTenantId))
      (hrun : run = (.error e, { s with nextTenantId }))
  | bound {binding : TenantBinding} {nextTenantId : Int64}
      (hnew : s.store.organizations.contains candidate.id = false → d.Newcomer s.store candidate)
      (hprovision : setting.provisioner candidate s.nextTenantId = (.ok binding, nextTenantId))
      (hrun : run = (insertResult candidate (s.store.insert candidate binding).1,
        { s with nextTenantId, store := (s.store.insert candidate binding).2 }))

/-- Once a tenant has been provisioned, all is left to the store. -/
theorem run_provided {candidate : Organization} {binding : TenantBinding} {nextTenantId : Int64}
    (hprovided : setting.provisioner candidate s.nextTenantId = (.ok binding, nextTenantId)) :
    (do
      let binding ← Action.provision candidate
      MonadExcept.ofExcept (insertResult candidate (← Action.call (.insert candidate binding))) :
      Action Organization).run setting.still s =
      (insertResult candidate (s.store.insert candidate binding).1,
        { s with nextTenantId, store := (s.store.insert candidate binding).2 }) := by
  have hprovision : (Action.provision candidate).run setting.still s =
      ((setting.provisioner candidate s.nextTenantId).1,
        { s with nextTenantId := (setting.provisioner candidate s.nextTenantId).2 }) := rfl
  have hcall : (Action.call (.insert candidate binding)).run setting.still
      { s with nextTenantId } = (.ok (s.store.insert candidate binding).1,
        { s with nextTenantId, store := (s.store.insert candidate binding).2 }) := rfl
  rw [Action.run_bind, hprovision, hprovided]
  dsimp only
  rw [Action.run_bind, hcall]
  dsimp only
  rw [Action.run_ofExcept]

/-- A tenant is provisioned before the store is asked, and that leaves the store alone. -/
theorem added_of_newcomer {candidate : Organization}
    (hnew : s.store.organizations.contains candidate.id = false → d.Newcomer s.store candidate) :
    d.Added setting s candidate ((do
      let binding ← Action.provision candidate
      MonadExcept.ofExcept (insertResult candidate (← Action.call (.insert candidate binding))) :
      Action Organization).run setting.still s) := by
  rcases hreply : setting.provisioner candidate s.nextTenantId with ⟨e | binding, nextTenantId⟩
  · have hprovision : (Action.provision candidate).run setting.still s =
        ((setting.provisioner candidate s.nextTenantId).1,
          { s with nextTenantId := (setting.provisioner candidate s.nextTenantId).2 }) := rfl
    rw [Action.run_bind, hprovision, hreply]
    exact .unprovided hreply rfl
  · exact .bound hnew hreply (run_provided hreply)

/-- An organization that may be added in the hierarchy of `root`, or as a new root, if its name is
free there. -/
structure Eligible (d : Directory) (s : Store) (o : Organization) (root : Option String) : Prop where
  named : d.validName o.name = .ok (Text.trimmed o.name)
  keyed : validAttributes o.attributes = .ok ()
  placed : o.parentId = none ∧ root = none ∨
    ∃ p r, o.parentId = some p ∧ root = some r ∧ d.Hosts s p 0 r

/-- An eligible organization is a newcomer if its name is free. -/
theorem Eligible.newcomer {t : Store} {o : Organization} {root : Option String}
    (h : d.Eligible t o root)
    (hfree : Free d.config.nameScope t (Text.trimmed o.name) root o.isRoot none) {now : Timestamp}
    {fresh : String} (hfresh : t.organizations.contains fresh = false) :
    d.Newcomer t (draft now fresh o) := by
  refine ⟨hfresh, .of_valid h.named (validAttributes_eq_ok.1 h.keyed), ?_, ?_⟩
  · intro htop
    change o.parentId = none at htop
    rcases h.placed with ⟨-, rfl⟩ | ⟨p, r, hp, -⟩
    · rw [Organization.isRoot, htop] at hfree
      exact hfree
    · rw [htop] at hp
      cases hp
  · intro p hp
    change o.parentId = some p at hp
    rcases h.placed with ⟨htop, -⟩ | ⟨q, r, hq, rfl, hhosts⟩
    · rw [htop] at hp
      cases hp
    · obtain rfl : q = p := Option.some.inj (hq.symm.trans hp)
      rw [Organization.isRoot, hp] at hfree
      exact ⟨r, hhosts, hfree⟩

/-- What is so when an organization is not eligible, when its name is taken, and whatever becomes of
its tenant if neither is the case, is so of every addition. -/
theorem add_cases {E : Except OrganizationError Organization × Surroundings → Prop}
    (hs : s.store.Linked) (now : Timestamp) (fresh : String) (o : Organization)
    (hbarred : (∀ root, ¬ d.Eligible s.store o root) →
      ∀ e : OrganizationError, e.kind = .badRequest → E (.error e, s))
    (htaken : ∀ root, d.Eligible s.store o root →
      ¬ Free d.config.nameScope s.store (Text.trimmed o.name) root o.isRoot none →
        ∀ e : OrganizationError, e.kind = .conflict → E (.error e, s))
    (hfree : ∀ root, d.Eligible s.store o root →
      Free d.config.nameScope s.store (Text.trimmed o.name) root o.isRoot none →
        E ((do
          let binding ← Action.provision (draft now fresh o)
          MonadExcept.ofExcept (insertResult (draft now fresh o)
            (← Action.call (.insert (draft now fresh o) binding))) :
          Action Organization).run setting.still s)) :
    E ((d.add now fresh o).run setting.still s) := by
  unfold add
  refine (decides_check _).run_bind (fun hno => hbarred fun root h => hno _ h.named)
    fun name hname => ?_
  refine (decides_check _).run_bind (fun hno => hbarred fun root h => hno _ h.keyed)
    fun _ hkeys => ?_
  obtain rfl : name = Text.trimmed o.name := (validName_eq_ok hname).1
  extract_lets -underBinder go
  -- the rest, once it is known where the record is to stand
  have hgo (root : Option String) (h : d.Eligible s.store o root) :
      E ((go root).run setting.still s) := by
    obtain ⟨taken, hrun, hiff⟩ : ∃ taken, (d.isTaken (Text.trimmed o.name) root o.isRoot
        none).run setting.still s = (.ok taken, s) ∧ _ := run_isTaken hs _ _ _ _
    dsimp -zeta only [go]
    rw [Action.run_bind, hrun]
    cases taken with
    | true =>
      refine htaken root h (fun hfree => ?_) (.conflict (.nameTaken (Text.trimmed o.name))) rfl
      exact Bool.noConfusion (hiff.2 hfree)
    | false => exact hfree root h (hiff.1 rfl)
  cases hparent : o.parentId with
  | none => exact hgo none ⟨hname, hkeys, .inl ⟨hparent, rfl⟩⟩
  | some p =>
    refine (decides_vetParent hs p 0).map.run_bind (fun hno => hbarred fun root h => ?_) ?_
    · rcases h.placed with ⟨htop, -⟩ | ⟨q, r, hq, -, hhosts⟩
      · rw [hparent] at htop
        cases htop
      · obtain rfl : p = q := Option.some.inj (hparent.symm.trans hq)
        exact hno _ ⟨r, hhosts, rfl⟩
    · rintro _ ⟨r, hhosts, rfl⟩
      exact hgo (some r) ⟨hname, hkeys, .inr ⟨p, r, hparent, rfl, hhosts⟩⟩

theorem add_added (hs : s.store.Linked) (now : Timestamp) (fresh : String) (o : Organization) :
    d.Added setting s (draft now fresh o) ((d.add now fresh o).run setting.still s) := by
  refine add_cases hs now fresh o (fun _ e he => .refused ?_ rfl) (fun _ _ _ e he => .refused ?_ rfl)
    fun root h hfree => added_of_newcomer fun hfresh => h.newcomer hfree hfresh
  all_goals rw [he]; nofun

/-! ## Deletions -/

/-- All that can become of a deletion: it is refused, or a record without children goes, and its
binding with it. -/
inductive Deleted (s : Surroundings) (id : String)
    (run : Except OrganizationError Unit × Surroundings) : Prop where
  | refused {e : OrganizationError} (he : e.kind ≠ .server) (hrun : run = (.error e, s))
  | removed {existing : Organization} {binding : TenantBinding} (hid : existing.id = id)
      (hleaf : ∀ x, s.store.parentId? x ≠ some (some id))
      (hbinding : s.store.bindings.get? id = some binding)
      (hrun : run = (.ok (), { s with store := s.store.removed existing binding }))

theorem delete_deleted (hs : s.store.Consistent) (id : String) :
    Deleted s id ((delete id).run setting.still s) := by
  have hcall : (Action.call (.delete id)).run setting.still s =
      (.ok (s.store.delete id).1, { s with store := (s.store.delete id).2 }) := rfl
  rw [delete, Action.run_bind, hcall]
  dsimp only
  rcases s.store.delete_cases id with ⟨hno, hkept⟩ | ⟨existing, hget, hleaf, hgone, hremoved⟩
  · rw [hkept]
    rcases houtcome : (s.store.delete id).1 with gone | _ | count
    · exact absurd houtcome (hno gone)
    · refine .refused ?_ rfl
      exact nofun
    · refine .refused ?_ rfl
      exact nofun
  · -- every record is bound, so there is a binding that goes with it
    obtain rfl := hs.ownId id existing hget
    obtain ⟨binding, hbinding⟩ :=
      Table.contains_iff.1 ((hs.bound _).2 (Table.contains_of_get? hget))
    rw [hgone, hremoved binding rfl hbinding]
    exact .removed rfl (hs.childless hleaf) hbinding rfl

end OrgForest.Directory
