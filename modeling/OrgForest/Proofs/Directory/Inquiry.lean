import OrgForest.Directory.Lookup
import OrgForest.Proofs.Directory.Fair
import OrgForest.Proofs.Directory.Pages

/-!
# Questions to a directory

Everything that can be asked of a directory without changing it. Where nobody disturbs it, a
question to a consistent store is answered, or it is refused for the caller's sake. The only
question that is refused in another way is the one for the distance of two organizations: that they
are not on one branch counts as a failure of the server.

* `Inquiry`, `Inquiry.action` — the questions, and what a directory does about them;
* `Directory.fair_list` — listings;
* `Directory.fair_inquiry`, `Directory.run_distance` — how questions end.
-/

namespace OrgForest

/-! ## The questions -/

/-- A question to a directory. -/
inductive Inquiry where
  | nameExists (name : String)
  | nameExistsInHierarchy (caller : Caller) (name : String)
  | nameIsKnownInHierarchy (caller : Caller) (name : String)
  | idExists (id : String)
  | idOfName (caller : Caller) (name : String)
  | nameOfId (id : String)
  | organizationsNamed (name : String)
  | get (id : String) (options : View)
  | children (id : String) (recursive : Bool)
  | childIds (id : String)
  | list (room : Nat → Bool) (caller : Caller) (q : ListingQuery)
      (allow : BasicOrganization → Bool)
  | ancestors (id : String)
  | depth (id : String)
  | distance (first second : String)
  | parent (id : String)
  | tenantDomain (id : String)
  | tenantId (id : String)
  | organizationOfDomain (domain : String)
  | organizationOfTenant (text : String)

namespace Inquiry

/-- What a question is answered with. -/
abbrev Answer : Inquiry → Type
  | .nameExists _ => Bool
  | .nameExistsInHierarchy _ _ => Bool
  | .nameIsKnownInHierarchy _ _ => Bool
  | .idExists _ => Bool
  | .idOfName _ _ => String
  | .nameOfId _ => String
  | .organizationsNamed _ => List Organization
  | .get _ _ => Organization
  | .children _ _ => List BasicOrganization
  | .childIds _ => List String
  | .list _ _ _ _ => Option (Page BasicOrganization)
  | .ancestors _ => Chain
  | .depth _ => Int32
  | .distance _ _ => Int32
  | .parent _ => Option String
  | .tenantDomain _ => String
  | .tenantId _ => String
  | .organizationOfDomain _ => String
  | .organizationOfTenant _ => String

/-- What a directory does about a question. -/
def action (d : Directory) : (q : Inquiry) → Action q.Answer
  | .nameExists name => Directory.nameExists name
  | .nameExistsInHierarchy caller name => d.nameExistsInHierarchy caller name
  | .nameIsKnownInHierarchy caller name => d.nameIsKnownInHierarchy caller name
  | .idExists id => Directory.idExists id
  | .idOfName caller name => d.idOfName caller name
  | .nameOfId id => Directory.nameOfId id
  | .organizationsNamed name => Directory.organizationsNamed name
  | .get id options => Directory.get id options
  | .children id recursive => d.children id recursive
  | .childIds id => Directory.childIds id
  | .list room caller q allow => d.list room caller q allow
  | .ancestors id => d.ancestors id
  | .depth id => d.depth id
  | .distance first second => d.distance first second
  | .parent id => Directory.parent id
  | .tenantDomain id => Directory.tenantDomain id
  | .tenantId id => Directory.tenantId id
  | .organizationOfDomain domain => Directory.organizationOfDomain domain
  | .organizationOfTenant text => Directory.organizationOfTenant text

end Inquiry

variable {setting : Setting} {s : Surroundings}

namespace Directory

variable {d : Directory} {caller : Caller} {id name : String}

/-! ## Look-ups -/

/-- No look-up in a consistent store fails. -/
theorem fair_call (hs : s.store.Consistent) {c : StoreCall} (hread : c.isWrite = false) :
    (Action.call c).Fair setting s := by
  have hcall : (Action.call c).run setting.still s =
      ((s.perform c).1.mapError .storage, (s.perform c).2) := rfl
  rw [Action.Fair, hcall]
  refine ⟨Surroundings.perform_of_read hread s, ?_⟩
  have hok : ∃ answer, (s.perform c).1 = .ok answer := by
    cases c with
    | structureVersion => exact ⟨_, rfl⟩
    | _ => exact hs.perform_ok _
  obtain ⟨answer, hanswer⟩ := hok
  rw [hanswer]
  exact blameless_ok answer

theorem fair_requireExists (hs : s.store.Consistent) (id : String) :
    (requireExists id).Fair setting s := by
  refine (fair_call hs rfl).bind fun found => ?_
  split
  · exact .pure ()
  · exact .throw nofun

theorem fair_scopeRoot (hs : s.store.Linked) (caller : Caller) :
    (d.scopeRoot caller).Fair setting s := by
  unfold scopeRoot
  cases caller.acting with
  | none => exact .pure none
  | some acting =>
    refine (fair_rootOf hs acting).bind fun root => ?_
    cases root with
    | none => exact .throw nofun
    | some root => exact .pure (some root)

theorem fair_idsWithin (hs : s.store.Linked) (root : String) (os : List Organization) :
    (d.idsWithin root os).Fair setting s := by
  induction os with
  | nil => exact .pure []
  | cons o os ih => exact (fair_rootOf hs o.id).bind fun _ => ih.bind fun _ => .pure _

theorem fair_idsByName (hs : s.store.Consistent) (name root : String) :
    (d.idsByName name root).Fair setting s :=
  (fair_call hs rfl).bind fun os => fair_idsWithin hs.toLinked root os

theorem fair_nameExistsInHierarchy (hs : s.store.Consistent) (caller : Caller) (name : String) :
    (d.nameExistsInHierarchy caller name).Fair setting s := by
  refine (fair_scopeRoot hs.toLinked caller).bind fun root => ?_
  cases root with
  | none => exact .throw nofun
  | some root => exact (fair_idsByName hs _ root).bind fun _ => .pure _

/-- A failure that counts as an answer is none. -/
theorem fair_nameIsKnownInHierarchy (hs : s.store.Consistent) (caller : Caller) (name : String) :
    (d.nameIsKnownInHierarchy caller name).Fair setting s := by
  refine (fair_nameExistsInHierarchy hs caller name).attempt.bind fun outcome => ?_
  cases outcome with
  | ok found => exact .pure found
  | error _ => exact .pure false

theorem fair_idOfName (hs : s.store.Consistent) (caller : Caller) (name : String) :
    (d.idOfName caller name).Fair setting s := by
  unfold idOfName
  extract_lets name choose
  -- the rest, once the ids of the name are known
  have hchoose (ids : List String) : (choose ids).Fair setting s := by
    rcases ids with _ | ⟨id, _ | ⟨id', ids⟩⟩
    · exact .notFound _
    · exact .pure id
    · exact .conflict _
  refine (fair_scopeRoot hs.toLinked caller).bind fun root => ?_
  cases root with
  | none => exact (fair_call hs rfl).bind fun os => hchoose _
  | some root => exact (fair_idsByName hs _ root).bind hchoose

theorem fair_get (hs : s.store.Consistent)
    (hpermissions : ∀ id, ∃ names, setting.permissions id = .ok names) (id : String)
    (options : View) : (get id options).Fair setting s := by
  have hresolve : (Action.permissions id).Fair setting s := by
    obtain ⟨names, hnames⟩ := hpermissions id
    exact .of_run (x := names) (congrArg (·, s) hnames)
  -- the rest, with or without the children
  have hrest (o : Organization) : (do
      if options.permissions then return { o with permissions := ← Action.permissions id }
      else return o : Action Organization).Fair setting s := by
    split
    · exact hresolve.bind fun _ => .pure _
    · exact .pure o
  refine (fair_load id).bind fun o => ?_
  dsimp only
  split
  · exact (fair_call hs rfl).bind fun _ => hrest _
  · exact hrest o

theorem fair_children (hs : s.store.Consistent) (id : String) (recursive : Bool) :
    (d.children id recursive).Fair setting s :=
  (fair_requireExists hs id).bind fun _ =>
    (Hierarchy.fair_below hs.toLinked _ id recursive).bind fun _ => .pure _

theorem fair_binding (hs : s.store.Consistent) (id : String) : (binding id).Fair setting s :=
  (fair_call hs rfl).found rfl fun _ => .pure _

theorem fair_organizationOfTenant (hs : s.store.Consistent) (text : String) :
    (organizationOfTenant text).Fair setting s :=
  (fair_check _).bind fun _ => (fair_call hs rfl).found rfl fun _ => .pure _

/-! ## Listings -/

theorem fair_scope (hs : s.store.Consistent) (caller : Caller) (recursive : Bool) :
    (scope caller recursive).Fair setting s := by
  unfold scope
  cases caller.acting with
  | none => exact .pure _
  | some acting => exact (fair_requireExists hs acting).bind fun _ => .pure _

/-- Every batch that is full takes organizations off those that are left, so a page is filled. -/
theorem fair_fill (hs : s.store.Consistent) {sel : Selection} (hbatch : sel.batchSize ≠ 0)
    (allow : BasicOrganization → Bool) : (fill sel allow).Fair setting s := by
  obtain ⟨listing, hlists⟩ := hs.exists_lists sel.scope sel.passes sel.window.key
    sel.window.readingOrder
  exact .of_run (run_fill hs hbatch hlists)

theorem fair_list (hs : s.store.Consistent) (room : Nat → Bool) (caller : Caller)
    (q : ListingQuery) (allow : BasicOrganization → Bool) :
    (d.list room caller q allow).Fair setting s := by
  refine (fair_check _).bind fun limit => ?_
  refine (fair_check _).bind fun filter => ?_
  refine (fair_check _).bind fun cursor => ?_
  refine (fair_scope hs caller q.recursive).bind fun scope => ?_
  split
  · exact (fair_fill hs d.scanBatchSize_ne_zero allow).bind fun _ => .pure _
  · exact .pure none

/-! ## How questions end -/

theorem fair_inquiry (hs : s.store.Consistent)
    (hpermissions : ∀ id, ∃ names, setting.permissions id = .ok names) {q : Inquiry}
    (hq : ∀ first second, q ≠ .distance first second) : (q.action d).Fair setting s := by
  cases q with
  | nameExists name => exact (fair_call hs rfl).bind fun _ => .pure _
  | nameExistsInHierarchy caller name => exact fair_nameExistsInHierarchy hs caller name
  | nameIsKnownInHierarchy caller name => exact fair_nameIsKnownInHierarchy hs caller name
  | idExists id => exact fair_call hs rfl
  | idOfName caller name => exact fair_idOfName hs caller name
  | nameOfId id => exact (fair_load id).bind fun _ => .pure _
  | organizationsNamed name => exact fair_call hs rfl
  | get id options => exact fair_get hs hpermissions id options
  | children id recursive => exact fair_children hs id recursive
  | childIds id => exact (fair_requireExists hs id).bind fun _ => fair_call hs rfl
  | list room caller q allow => exact fair_list hs room caller q allow
  | ancestors id => exact Hierarchy.fair_chainOf hs.toLinked _ id
  | depth id => exact Hierarchy.fair_depth hs.toLinked _ id
  | distance first second => exact absurd rfl (hq first second)
  | parent id => exact (fair_call hs rfl).found rfl fun _ => .pure _
  | tenantDomain id => exact (fair_binding hs id).bind fun _ => .pure _
  | tenantId id => exact (fair_binding hs id).bind fun _ => .pure _
  | organizationOfDomain domain => exact (fair_call hs rfl).found rfl fun _ => .pure _
  | organizationOfTenant text => exact fair_organizationOfTenant hs text

/-- Two organizations have a distance, or they are not on one branch. -/
theorem run_distance (hs : s.store.Linked) (first second : String) {e : OrganizationError}
    (he : ((d.distance first second).run setting.still s).1 = .error e) :
    e = .notOnSameBranch first second := by
  have hclimb (id : String) :
      ∃ chain, (Hierarchy.climb id).run setting.still s = (.ok chain, s) := by
    cases hup : s.store.parentId? id with
    | none => exact ⟨[], Hierarchy.run_climb_unknown hup⟩
    | some parent =>
      obtain ⟨chain, hchain⟩ := hs.lineage (Store.contains_of_parentId? hup)
      exact ⟨chain, Hierarchy.run_climb hchain⟩
  obtain ⟨a, ha⟩ := hclimb first
  obtain ⟨b, hb⟩ := hclimb second
  -- both walks find an end, so only what they found can be at fault
  rw [distance, Hierarchy.run_distance ha hb] at he
  cases hdistance : Chain.distance? a b with
  | some n =>
    rw [hdistance] at he
    cases he
  | none =>
    rw [hdistance] at he
    cases he
    rfl

end Directory

end OrgForest
