import OrgForest.Directory.Change
import OrgForest.Proofs.Hierarchy.Climb
import OrgForest.Proofs.Hierarchy.Descend
import OrgForest.Proofs.Program.Decides

/-!
# What the checks of a directory assure

Every check that comes before a change has one lemma here, which says what is known of the store
once the check has let the change pass, and for most checks also when it has refused the change. The
facts are stated over records and lineages, so what follows from them needs neither the checks nor
the walks that they make.

* `Directory.run_rootOf`, `Directory.run_isTaken` — hierarchies and free names;
* `Directory.Hosts`, `Directory.decides_vetParent` — parents that may get a child;
* `Directory.Admits`, `Directory.decides_vetMove` — parents that a record may move to;
* `Directory.assures_vetStatus`, `Directory.decides_vetStatus` — changes of the status.
-/

namespace OrgForest.Directory

variable {setting : Setting} {s : Surroundings} {d : Directory} {id : String}

/-! ## Single look-ups -/

theorem run_get (id : String) : (Action.call (.get id)).run setting.still s =
    (.ok (s.store.organizations.get? id), s) := rfl

theorem run_load (id : String) : (load id).run setting.still s =
    (match s.store.organizations.get? id with
      | some o => .ok o
      | none => .error (.notFound (.organization id)), s) := by
  rw [load, Action.run_bind, run_get]
  dsimp only
  cases s.store.organizations.get? id <;> rfl

/-- An organization that has to be there is there, or its id is unknown. -/
theorem run_requireExists (id : String) : (requireExists id).run setting.still s =
    (if s.store.organizations.contains id then .ok () else .error (.notFound (.organization id)),
      s) := by
  show (if s.store.organizations.contains id then _ else _ : Action Unit).run setting.still s = _
  split <;> rfl

theorem assures_get (id : String) :
    (Action.call (.get id)).Assures setting s fun found => s.store.organizations.get? id = found :=
  .of_run (run_get id) rfl

theorem assures_load (id : String) :
    (load id).Assures setting s fun o => s.store.organizations.get? id = some o := by
  refine (assures_get id).bind fun found hfound => ?_
  cases found with
  | none => exact .throw _
  | some o => exact .pure hfound

theorem decides_check {α : Type} (outcome : Except BadRequest α) :
    (Action.check outcome).Decides setting s .badRequest fun a => outcome = .ok a := by
  cases outcome with
  | ok a => exact .pure rfl
  | error fault => exact .throw rfl nofun

theorem assures_check {α : Type} (outcome : Except BadRequest α) :
    (Action.check outcome).Assures setting s fun a => outcome = .ok a :=
  (decides_check outcome).assures

theorem assures_holdWithParent (id : String) :
    (holdWithParent id).Assures setting s fun held =>
      s.store.organizations.get? id = some held.2 := by
  -- a round that is not the last one has found out nothing
  refine .iterate (I := fun _ => True) (fun _ _ => ?_) trivial
  refine Action.Assures.bind (Q := fun _ => True) (.of_run rfl trivial) fun parent _ => ?_
  refine (assures_load id).bind fun current hcurrent => ?_
  split
  · exact .pure hcurrent
  · exact .pure trivial

/-! ## Hierarchies -/

theorem run_rootOf {root : String} (h : s.store.InHierarchy root id) :
    (d.rootOf id).run setting.still s = (.ok (some root), s) := by
  obtain ⟨chain, hchain, hroot⟩ := h
  rw [rootOf, Action.run_bind, chainOf, Hierarchy.run_chainOf hchain, ← hroot]
  rfl

/-- Whether a name that stands for one organization, in the hierarchy of `root` or on its own, must
not be that of another. -/
def Clashes (scope : NameScope) (s : Store) (root : Option String) (isRoot : Bool)
    (other : Organization) : Prop :=
  match scope with
  | .global => True
  | .hierarchy =>
    isRoot = true ∧ other.isRoot = true ∨ ∃ r, root = some r ∧ s.InHierarchy r other.id

theorem run_clashesWith (h : s.store.Linked) (root : Option String) (isRoot : Bool)
    {other : Organization} (hother : s.store.Holds other) :
    ∃ clash, (d.clashesWith root isRoot other).run setting.still s = (.ok clash, s) ∧
      (clash = true ↔ Clashes d.config.nameScope s.store root isRoot other) := by
  unfold clashesWith
  cases d.config.nameScope with
  | global => exact ⟨true, rfl, by simp [Clashes]⟩
  | hierarchy =>
    -- two roots clash without a look-up, and any others are compared by their hierarchies
    by_cases hroots : (isRoot && other.isRoot) = true
    · rw [Bool.and_eq_true] at hroots
      refine ⟨true, ?_, by simp [Clashes, hroots]⟩
      simp only [hroots, Bool.and_self, if_true]
      rfl
    · simp only [hroots, Bool.false_eq_true, if_false]
      rw [Bool.and_eq_true] at hroots
      cases root with
      | none => exact ⟨false, rfl, by simp [Clashes, hroots]⟩
      | some r =>
        obtain ⟨r', hr'⟩ := h.inHierarchy (Table.contains_of_get? hother)
        refine ⟨some r' == some r, ?_, ?_⟩
        · dsimp only
          rw [Action.run_bind, run_rootOf hr']
          rfl
        · simp only [Clashes, hroots, false_or, beq_iff_eq, Option.some_inj]
          constructor
          · rintro rfl
            exact ⟨r', rfl, hr'⟩
          · rintro ⟨_, rfl, hr⟩
            exact hr'.unique hr

theorem run_anyClash (h : s.store.Linked) (root : Option String) (isRoot : Bool)
    (exclude : Option String) {os : List Organization} (hos : ∀ o ∈ os, s.store.Holds o) :
    ∃ clash, (d.anyClash root isRoot exclude os).run setting.still s = (.ok clash, s) ∧
      (clash = true ↔ ∃ o ∈ os, some o.id ≠ exclude ∧
        Clashes d.config.nameScope s.store root isRoot o) := by
  induction os with
  | nil => exact ⟨false, rfl, by simp⟩
  | cons o os ih =>
    -- the search ends with the first clash, so the rest is asked only if there is none yet
    obtain ⟨rest, hrest, hrestIff⟩ := ih fun x hx => hos x (List.mem_cons_of_mem _ hx)
    rw [anyClash]
    by_cases hex : some o.id = exclude
    · rw [if_pos hex]
      exact ⟨rest, hrest, by rw [hrestIff]; simp [hex]⟩
    · rw [if_neg hex]
      obtain ⟨clash, hclash, hiff⟩ := run_clashesWith (d := d) h root isRoot (hos o (by simp))
      rw [Action.run_bind, hclash]
      cases clash with
      | true => exact ⟨true, rfl, by simp [hex, ← hiff]⟩
      | false =>
        have hno : ¬ Clashes d.config.nameScope s.store root isRoot o := by simp [← hiff]
        exact ⟨rest, hrest, by rw [hrestIff]; simp [hno]⟩

/-- No record but the excluded one has the name where it would clash. -/
def Free (scope : NameScope) (s : Store) (name : String) (root : Option String) (isRoot : Bool)
    (exclude : Option String) : Prop :=
  ∀ o, s.Holds o → o.name = name → some o.id ≠ exclude → ¬ Clashes scope s root isRoot o

theorem run_isTaken (h : s.store.Linked) (name : String) (root : Option String) (isRoot : Bool)
    (exclude : Option String) :
    ∃ taken, (d.isTaken name root isRoot exclude).run setting.still s = (.ok taken, s) ∧
      (taken = false ↔ Free d.config.nameScope s.store name root isRoot exclude) := by
  have hnamed : (Action.call (.named name)).run setting.still s = (.ok (s.store.named name), s) :=
    rfl
  obtain ⟨taken, hrun, htaken⟩ : ∃ taken, (d.anyClash root isRoot exclude _).run _ _ = _ ∧ _ :=
    run_anyClash h root isRoot exclude fun o ho => (h.mem_named.1 ho).1
  refine ⟨taken, by rw [isTaken, Action.run_bind, hnamed]; exact hrun, ?_⟩
  rw [← Bool.not_eq_true, htaken, Free]
  simp only [h.mem_named, not_exists, not_and, and_imp]

theorem decides_requireFreeName (h : s.store.Linked) {current candidate : Organization}
    (hid : s.store.organizations.contains id = true) :
    (d.requireFreeName id current candidate).Decides setting s .conflict fun _ =>
      ∃ root, s.store.InHierarchy root id ∧
        Free d.config.nameScope s.store candidate.name (some root) current.isRoot (some id) := by
  obtain ⟨root, hroot⟩ := h.inHierarchy hid
  obtain ⟨taken, hrun, htaken⟩ : ∃ taken, (d.isTaken candidate.name (some root) current.isRoot
      (some id)).run setting.still s = (.ok taken, s) ∧ _ := run_isTaken h _ _ _ _
  refine .after (run_rootOf hroot) (.after hrun ?_)
  cases taken with
  | true =>
    refine .throw rfl fun _ ⟨root', hroot', hfree⟩ => ?_
    rw [← hroot.unique hroot', ← htaken] at hfree
    cases hfree
  | false => exact .pure ⟨root, hroot, htaken.1 rfl⟩

theorem assures_requireFreeName (h : s.store.Linked) {current candidate : Organization}
    (hid : s.store.organizations.contains id = true) :
    (d.requireFreeName id current candidate).Assures setting s fun _ =>
      ∃ root, s.store.InHierarchy root id ∧
        Free d.config.nameScope s.store candidate.name (some root) current.isRoot (some id) :=
  (decides_requireFreeName h hid).assures

/-! ## Parents -/

/-- A parent that may get a child with `extra` levels below it, in the hierarchy of `root`. -/
structure Hosts (d : Directory) (s : Store) (parent : String) (extra : Nat) (root : String) :
    Prop where
  active : s.Active parent
  placed : ∃ chain, Lineage s.parentId? parent chain ∧ chain.head? = some root ∧
    ∀ limit, d.config.maxDepth = some limit → chain.length + extra ≤ limit

/-- What is host to more is host to less. -/
theorem Hosts.mono {t : Store} {parent root : String} {extra extra' : Nat} (hle : extra ≤ extra')
    (h : d.Hosts t parent extra' root) : d.Hosts t parent extra root := by
  obtain ⟨chain, hchain, hroot, hfits⟩ := h.placed
  refine ⟨h.active, chain, hchain, hroot, fun limit hlimit => ?_⟩
  have hfit := hfits limit hlimit
  omega

/-- A parent stands in one hierarchy. -/
theorem Hosts.root_unique {t : Store} {parent root root' : String} {extra extra' : Nat}
    (h : d.Hosts t parent extra root) (h' : d.Hosts t parent extra' root') : root = root' := by
  obtain ⟨chain, hchain, hroot, -⟩ := h.placed
  obtain ⟨chain', hchain', hroot', -⟩ := h'.placed
  rw [hchain.unique hchain', hroot'] at hroot
  exact (Option.some.inj hroot).symm

theorem decides_vetParent (h : s.store.Linked) (parent : String) (extra : Nat) :
    (d.vetParent parent extra).Decides setting s .badRequest (d.Hosts s.store parent extra) := by
  refine .after (run_get parent) ?_
  cases hfound : s.store.organizations.get? parent with
  | none =>
    refine .throw rfl fun root hhosts => ?_
    obtain ⟨o, ho, -⟩ := hhosts.active
    rw [hfound] at ho
    cases ho
  | some o =>
    dsimp only
    split
    · next hoff =>
      refine .throw rfl fun root hhosts => ?_
      obtain ⟨o', ho', hactive⟩ := hhosts.active
      obtain rfl : o = o' := Option.some.inj (hfound.symm.trans ho')
      rw [hactive] at hoff
      cases hoff
    · next hactive =>
      -- a known parent has a lineage, so the walk up answers with it
      obtain ⟨chain, hchain⟩ := h.rooted parent o hfound
      refine .after (Hierarchy.run_chainOf hchain _) ?_
      have hact : o.isActive = true := by simpa using hactive
      cases chain with
      | nil => exact absurd rfl hchain.ne_nil
      | cons root rest =>
        dsimp only
        cases hlimit : d.config.maxDepth with
        | none => exact .pure ⟨⟨o, hfound, hact⟩, _, hchain, rfl, by simp [hlimit]⟩
        | some limit =>
          dsimp only
          split
          · next hdeep =>
            refine .throw rfl fun root' hhosts => ?_
            obtain ⟨chain', hchain', -, hfits⟩ := hhosts.placed
            have hfit := hfits limit hlimit
            rw [← hchain.unique hchain'] at hfit
            omega
          · next hfits =>
            refine .pure ⟨⟨o, hfound, hact⟩, _, hchain, rfl, fun limit' hlimit' => ?_⟩
            rw [hlimit, Option.some_inj] at hlimit'
            omega

/-- A parent to which a record may move: a host for all that comes along, in the same hierarchy and
not below the record. -/
structure Admits (d : Directory) (s : Store) (parent id : String) : Prop where
  apart : ∃ chain, Lineage s.parentId? parent chain ∧ id ∉ chain
  fits : ∃ root height, s.InHierarchy root id ∧ s.rank id (height + 1) = [] ∧
    d.Hosts s parent height root

/-- A parent that admits a record is host to all that stands below the record, and no more. -/
theorem Admits.hosts {t : Store} {parent : String} {height : Nat} (h : d.Admits t parent id)
    (hfull : ∀ k ≤ height, t.rank id k ≠ []) :
    ∃ root, t.InHierarchy root id ∧ d.Hosts t parent height root := by
  obtain ⟨root, height', hroot, hend, hhosts⟩ := h.fits
  refine ⟨root, hroot, hhosts.mono (Nat.le_of_not_lt fun hlt => ?_)⟩
  exact hfull (height' + 1) hlt hend

/-- An id stands at or below another if its lineage leads through the other. -/
theorem run_isAtOrBelow (h : s.store.Linked) (limit : Nat)
    (hid : s.store.organizations.contains id = true) (parent : String) :
    ∃ below, (if parent = id then pure true else Hierarchy.isAbove limit id parent :
        Action Bool).run setting.still s = (.ok below, s) ∧
      (below = true ↔ ∃ chain, Lineage s.store.parentId? parent chain ∧ id ∈ chain) := by
  by_cases hself : parent = id
  · rw [if_pos hself]
    obtain ⟨chain, hchain⟩ := h.lineage hid
    exact ⟨true, rfl, iff_of_true rfl ⟨chain, hself ▸ hchain, hchain.mem_self⟩⟩
  · rw [if_neg hself]
    cases hup : s.store.parentId? parent with
    | none =>
      -- nothing stands above an id without record
      refine ⟨false, ?_, iff_of_false Bool.false_ne_true ?_⟩
      · rw [Hierarchy.isAbove, Action.run_bind, Hierarchy.run_chainOf_unknown hup]
        rfl
      · rintro ⟨chain, hchain, -⟩
        obtain ⟨q, hq⟩ := hchain.known hchain.mem_self
        rw [hup] at hq
        cases hq
    | some q =>
      obtain ⟨chain, hchain⟩ := h.lineage (Store.contains_of_parentId? hup)
      refine ⟨_, Hierarchy.run_isAbove hchain limit id, ?_⟩
      rw [decide_eq_true_iff]
      constructor
      · intro hmem
        exact ⟨chain, hchain, (List.dropLast_sublist chain).subset hmem⟩
      · rintro ⟨chain', hchain', hmem⟩
        rw [← hchain.unique hchain'] at hmem
        exact hchain.mem_dropLast hmem (Ne.symm hself)

/-- A root stays where it is, and any other record moves to a parent that admits it. -/
def MayMove (d : Directory) (s : Store) (current : Organization) (parent : Option String) : Prop :=
  parent = none ∧ current.isRoot = true ∨
    ∃ p, parent = some p ∧ current.isRoot = false ∧ d.Admits s p current.id

theorem mayMove_some {t : Store} {current : Organization} {p : String}
    (hroot : current.isRoot = false) :
    d.MayMove t current (some p) ↔ d.Admits t p current.id := by
  simp [MayMove, hroot]

theorem decides_vetMove (h : s.store.Linked) {current : Organization}
    (hcurrent : s.store.Holds current) (parent : Option String) :
    (d.vetMove current parent).Decides setting s .badRequest fun _ =>
      d.MayMove s.store current parent := by
  unfold vetMove
  cases parent with
  | none =>
    dsimp only
    split
    · next hroot => exact .pure (.inl ⟨rfl, hroot⟩)
    · next hroot => exact .throw rfl fun _ hmay => hroot (by simpa [MayMove] using hmay)
  | some p =>
    dsimp only
    refine .guarded rfl (fun hroot _ hmay => by simp [MayMove, hroot] at hmay) fun hroot => ?_
    rw [Bool.not_eq_true] at hroot
    simp only [mayMove_some hroot]
    have hid := Table.contains_of_get? hcurrent
    obtain ⟨root, hin⟩ := h.inHierarchy hid
    obtain ⟨below, hbelow, hiff⟩ : ∃ below, Action.run setting.still _ s = (.ok below, s) ∧ _ :=
      run_isAtOrBelow h d.config.walkRetryLimit hid p
    obtain ⟨height, hheight, hend, hfull⟩ : ∃ height,
        (Hierarchy.heightOf d.config.walkRetryLimit current.id).run setting.still s = _ ∧ _ :=
      Hierarchy.run_heightOf h _ current.id
    -- the checks in their order, each with what it would mean that the parent admits the record
    refine .after_ite hbelow (.guarded rfl (fun hyes _ hadmits => ?_) fun hnot => ?_)
    · obtain ⟨chain, hchain, hmem⟩ := hiff.1 hyes
      obtain ⟨chain', hchain', hapart⟩ := hadmits.apart
      exact hapart (hchain.unique hchain' ▸ hmem)
    refine .after hheight (.bind (decides_vetParent h p height) (fun newRoot hhosts => ?_) ?_)
    · refine .after (run_rootOf hin) ?_
      split
      · next hother =>
        refine .throw rfl fun _ hadmits => hother ?_
        obtain ⟨root', hin', hhosts'⟩ := hadmits.hosts hfull
        rw [hin.unique hin', hhosts.root_unique hhosts']
      · next hsame =>
        have hroots : root = newRoot := by simpa using hsame
        obtain ⟨chain, hchain, -⟩ := hhosts.placed
        have hapart : current.id ∉ chain := fun hmem => hnot (hiff.2 ⟨chain, hchain, hmem⟩)
        exact .pure ⟨⟨chain, hchain, hapart⟩, root, height, hin, hend, hroots ▸ hhosts⟩
    · intro hno _ hadmits
      obtain ⟨root', -, hhosts⟩ := hadmits.hosts hfull
      exact hno root' hhosts

theorem assures_vetMove (h : s.store.Linked) {current : Organization}
    (hcurrent : s.store.Holds current) (parent : Option String) :
    (d.vetMove current parent).Assures setting s fun _ =>
      parent = none ∧ current.isRoot = true ∨
        ∃ p, parent = some p ∧ current.isRoot = false ∧ d.Admits s.store p current.id :=
  (decides_vetMove h hcurrent parent).assures

/-! ## The status -/

theorem assures_requireActiveParent (id parent : String) :
    (requireActiveParent id parent).Assures setting s fun _ => s.store.Active parent := by
  refine (assures_load parent).bind fun o ho => ?_
  split
  · next hactive => exact .pure ⟨o, ho, hactive⟩
  · exact .throw _

theorem decides_requireNoActiveChildren (h : s.store.Linked) (id : String) :
    (requireNoActiveChildren id).Decides setting s .conflict fun _ =>
      ∀ x, s.store.parentId? x = some (some id) → ¬ s.store.Active x := by
  refine .after (Hierarchy.run_children h.recorded id) ?_
  dsimp only
  split
  · next hnone =>
    -- a child of the links is one of those read from the index
    refine .pure fun x hx hactive => ?_
    obtain ⟨o, ho, hparent⟩ := Store.parentId?_eq_some.1 hx
    obtain ⟨o', ho', hact⟩ := hactive
    obtain rfl : o = o' := Option.some.inj (ho.symm.trans ho')
    rw [List.length_eq_zero_iff, List.filter_eq_nil_iff] at hnone
    exact hnone o (h.mem_kids.2 ⟨h.get?_own ho, hparent⟩) hact
  · next hsome =>
    refine .throw rfl fun _ hno => hsome ?_
    rw [List.length_eq_zero_iff, List.filter_eq_nil_iff]
    intro o ho hactive
    obtain ⟨hheld, hparent⟩ := h.mem_kids.1 ho
    exact hno o.id (Store.parentId?_eq_some.2 ⟨o, hheld, hparent⟩) ⟨o, hheld, hactive⟩

theorem assures_requireNoActiveChildren (h : s.store.Linked) (id : String) :
    (requireNoActiveChildren id).Assures setting s fun _ =>
      ∀ x, s.store.parentId? x = some (some id) → ¬ s.store.Active x :=
  (decides_requireNoActiveChildren h id).assures

/-- What a change of the status has to keep: below a disabled record none is active. -/
structure Settled (s : Store) (id : String) (current candidate : Organization) : Prop where
  disabled : current.isActive = true → candidate.isActive = false →
    ∀ x, s.parentId? x = some (some id) → ¬ s.Active x
  activated : current.isActive = false → candidate.isActive = true →
    ∀ p, candidate.parentId = some p → s.Active p

theorem assures_vetStatus (h : s.store.Linked) (id : String) (current candidate : Organization) :
    (vetStatus id current candidate).Assures setting s fun _ =>
      Settled s.store id current candidate := by
  unfold vetStatus
  extract_lets go
  -- the second check, after whatever the first one has assured
  have hgo (hdisabled : current.isActive = true → candidate.isActive = false →
      ∀ x, s.store.parentId? x = some (some id) → ¬ s.store.Active x) :
      (go ()).Assures setting s fun _ => Settled s.store id current candidate := by
    dsimp only [go]
    split
    · cases hparent : candidate.parentId with
      | none => exact .pure ⟨hdisabled, fun _ _ p hp => by simp [hparent] at hp⟩
      | some parent =>
        refine (assures_requireActiveParent id parent).mono fun _ hactive =>
          ⟨hdisabled, fun _ _ p hp => ?_⟩
        rw [hparent, Option.some_inj] at hp
        exact hp ▸ hactive
    · next hkept =>
      refine .pure ⟨hdisabled, fun hoff hon => ?_⟩
      simp [hoff, hon] at hkept
  split
  · exact (assures_requireNoActiveChildren h id).bind fun _ hnone => hgo fun _ _ => hnone
  · next hkept =>
    refine hgo fun hon hoff => ?_
    simp [hoff, hon] at hkept

/-- Below an active parent it is only for its children that a change of the status is refused. -/
theorem decides_vetStatus (h : s.store.Linked) (id : String) {current candidate : Organization}
    (hactive : ∀ p, candidate.parentId = some p → s.store.Active p) :
    (vetStatus id current candidate).Decides setting s .conflict fun _ =>
      Settled s.store id current candidate := by
  unfold vetStatus
  extract_lets go
  have hgo (hdisabled : current.isActive = true → candidate.isActive = false →
      ∀ x, s.store.parentId? x = some (some id) → ¬ s.store.Active x) :
      (go ()).Decides setting s .conflict fun _ => Settled s.store id current candidate := by
    have hsettled : Settled s.store id current candidate := ⟨hdisabled, fun _ _ => hactive⟩
    dsimp only [go]
    split
    · cases hparent : candidate.parentId with
      | none => exact .pure hsettled
      | some parent =>
        obtain ⟨o, ho, hon⟩ := hactive parent hparent
        have hrun : (requireActiveParent id parent).run setting.still s = (.ok (), s) := by
          rw [requireActiveParent, Action.run_bind, load, Action.run_bind, run_get, ho]
          dsimp only
          rw [Action.run_pure]
          dsimp only
          rw [if_pos hon]
          rfl
        exact .of_run hrun hsettled
    · exact .pure hsettled
  split
  · next hoff =>
    rw [Bool.and_eq_true, Bool.not_eq_true'] at hoff
    refine (decides_requireNoActiveChildren h id).bind (fun _ hnone => hgo fun _ _ => hnone) ?_
    exact fun hsome _ hsettled => hsome () (hsettled.disabled hoff.1 hoff.2)
  · next hkept =>
    refine hgo fun hon hoff => ?_
    simp [hoff, hon] at hkept

end OrgForest.Directory
