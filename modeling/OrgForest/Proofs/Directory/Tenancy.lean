import OrgForest.Proofs.Directory.Blameless
import OrgForest.Proofs.Tenant

/-!
# Tenants of organizations

An organization gets its tenant when it is added, keeps it whatever becomes of its record, and loses
it when it is deleted. In between the tenant has a domain and a number that lead to the
organization, and nothing else leads there. All this does not depend on where tenants come from: a
provisioner may give out domains and numbers that are in use, or a tenant that is not meant for the
organization at all, and the store turns them down together with the record.

* `Store.Collides` — bindings that cannot be had;
* `Directory.Tenanted`, `Directory.Untenanted` — what is answered about the tenant of an id;
* `Directory.serve_add`, `Directory.serve_delete` — what additions and deletions do to bindings;
* `Directory.serve_bound`, `Directory.foldl_bound` — a binding stays until its organization goes;
* `Directory.tenanted_of_added`, `Directory.untenanted_of_deleted` — where a tenant begins and ends;
* `Directory.tenants_after` — tenants after whatever changes.
-/

namespace OrgForest

variable {setting : Setting} {s : Surroundings} {id : String} {b : TenantBinding}

/-! ## Bindings that collide -/

/-- A binding that cannot be had for an id: it names another organization, or it shares its domain
or its number with a binding that is there. -/
def Store.Collides (s : Store) (id : String) (b : TenantBinding) : Prop :=
  b.organizationId ≠ id ∨ ∃ x held, s.bindings.get? x = some held ∧
    (held.tenantDomain = b.tenantDomain ∨ held.tenantId = b.tenantId)

theorem Store.Bound.conflict?_ne_none {store : Store} (h : store.Bound)
    (hcollides : store.Collides id b) : store.conflict? id b ≠ none := by
  intro hfree
  obtain ⟨hown, -, hdomain, hnumber⟩ := Store.conflict?_eq_none.1 hfree
  rcases hcollides with hother | ⟨x, held, hheld, hsame | hsame⟩
  · exact hother hown
  · rw [(h.domains b.tenantDomain x).2 ⟨held, hheld, hsame⟩] at hdomain
    cases hdomain
  · rw [(h.tenantIds b.tenantId x).2 ⟨held, hheld, hsame⟩] at hnumber
    cases hnumber

/-- Whether a change is the deletion of an id. -/
def Mutation.deletes (id : String) : Mutation → Bool
  | .delete gone => gone == id
  | _ => false

namespace Directory

variable {d : Directory}

/-! ## Questions about tenants -/

theorem run_binding (id : String) : (binding id).run setting.still s =
    (match s.store.bindings.get? id with
      | some b => .ok b
      | none => .error (.notFound (.tenantBinding id)), s) := by
  have hcall : (Action.call (.bindingOf id)).run setting.still s =
      (.ok (s.store.bindings.get? id), s) := rfl
  rw [binding, Action.run_bind, hcall]
  dsimp only
  cases s.store.bindings.get? id <;> rfl

theorem run_of_binding {α : Type} (id : String) (f : TenantBinding → α) :
    (do return f (← binding id) : Action α).run setting.still s =
      (match s.store.bindings.get? id with
        | some b => .ok (f b)
        | none => .error (.notFound (.tenantBinding id)), s) := by
  rw [Action.run_bind, run_binding]
  cases s.store.bindings.get? id <;> rfl

theorem ask_tenantDomain (id : String) : d.ask s (.tenantDomain id) =
    match s.store.bindings.get? id with
    | some b => .ok b.tenantDomain
    | none => .error (.notFound (.tenantBinding id)) := by
  rw [ask, (Setting.plain.run_undisturbed _ s).1]
  exact congrArg Prod.fst (run_of_binding id (·.tenantDomain))

theorem ask_tenantId (id : String) : d.ask s (.tenantId id) =
    match s.store.bindings.get? id with
    | some b => .ok (Tenant.writeId b.tenantId)
    | none => .error (.notFound (.tenantBinding id)) := by
  rw [ask, (Setting.plain.run_undisturbed _ s).1]
  exact congrArg Prod.fst (run_of_binding id (Tenant.writeId ·.tenantId))

theorem ask_organizationOfDomain (domain : String) : d.ask s (.organizationOfDomain domain) =
    match s.store.domains.get? domain with
    | some id => .ok id
    | none => .error (.notFound (.tenantDomain domain)) := by
  have hcall : (Action.call (.ownerOfDomain domain)).run Setting.plain.still s.next =
      (.ok (s.store.domains.get? domain), s.next) := rfl
  rw [ask, (Setting.plain.run_undisturbed _ s).1]
  show ((organizationOfDomain domain).run _ _).1 = _
  rw [organizationOfDomain, Action.run_bind, hcall]
  dsimp only
  cases s.store.domains.get? domain <;> rfl

theorem ask_organizationOfTenant (text : String) : d.ask s (.organizationOfTenant text) =
    match Tenant.readId? text with
    | none => .error (.badRequest (.tenantId text))
    | some n =>
      match s.store.tenantIds.get? n with
      | some id => .ok id
      | none => .error (.notFound (.tenant text)) := by
  rw [ask, (Setting.plain.run_undisturbed _ s).1]
  show ((organizationOfTenant text).run _ _).1 = _
  rw [organizationOfTenant, readTenantId]
  cases Tenant.readId? text with
  | none => rfl
  | some n =>
    have hcall : (Action.call (.ownerOfTenantId n)).run Setting.plain.still s.next =
        (.ok (s.store.tenantIds.get? n), s.next) := rfl
    dsimp only [Action.check]
    rw [pure_bind, Action.run_bind, hcall]
    dsimp only
    cases s.store.tenantIds.get? n <;> rfl

/-! ## Tenants -/

/-- An organization is bound to one tenant; the tenant is what is answered about it, and what leads
to it. -/
structure Tenanted (d : Directory) (s : Surroundings) (id : String) (b : TenantBinding) : Prop where
  bound : s.store.bindings.get? id = some b
  own : b.organizationId = id
  only : ∀ b' ∈ s.store.bindings.values, b'.organizationId = id → b' = b
  domain : d.ask s (.tenantDomain id) = .ok b.tenantDomain
  number : d.ask s (.tenantId id) = .ok (Tenant.writeId b.tenantId)
  /-- The organization is found from the writing of its number, a negative one included. -/
  back : d.ask s (.organizationOfTenant (Tenant.writeId b.tenantId)) = .ok id
  byDomain : ∀ domain, d.ask s (.organizationOfDomain domain) = .ok id ↔ domain = b.tenantDomain
  byNumber : ∀ text, d.ask s (.organizationOfTenant text) = .ok id ↔
    Tenant.readId? text = some b.tenantId

/-- Nothing is bound to an id, and nothing leads to it. -/
structure Untenanted (d : Directory) (s : Surroundings) (id : String) : Prop where
  unbound : ∀ b ∈ s.store.bindings.values, b.organizationId ≠ id
  domain : d.ask s (.tenantDomain id) = .error (.notFound (.tenantBinding id))
  number : d.ask s (.tenantId id) = .error (.notFound (.tenantBinding id))
  byDomain : ∀ domain, d.ask s (.organizationOfDomain domain) ≠ .ok id
  byNumber : ∀ text, d.ask s (.organizationOfTenant text) ≠ .ok id

theorem ask_organizationOfDomain_eq_ok {domain : String} :
    d.ask s (.organizationOfDomain domain) = .ok id ↔ s.store.domains.get? domain = some id := by
  rw [ask_organizationOfDomain]
  cases s.store.domains.get? domain <;> simp

theorem ask_organizationOfTenant_eq_ok {text : String} :
    d.ask s (.organizationOfTenant text) = .ok id ↔
      ∃ n, Tenant.readId? text = some n ∧ s.store.tenantIds.get? n = some id := by
  rw [ask_organizationOfTenant]
  cases Tenant.readId? text with
  | none => simp
  | some n =>
    dsimp only
    cases hn : s.store.tenantIds.get? n <;> simp [hn]

theorem tenanted_of_bound (hs : s.store.Consistent) (hb : s.store.bindings.get? id = some b) :
    d.Tenanted s id b := by
  have hbyNumber (text : String) : d.ask s (.organizationOfTenant text) = .ok id ↔
      Tenant.readId? text = some b.tenantId := by
    rw [ask_organizationOfTenant_eq_ok]
    -- the index is the inverse of the bindings, so it leads back from one number only
    constructor
    · rintro ⟨n, hn, howner⟩
      obtain ⟨b', hb', rfl⟩ := (hs.tenantIds n id).1 howner
      obtain rfl : b = b' := Option.some.inj (hb.symm.trans hb')
      exact hn
    · exact fun hn => ⟨_, hn, (hs.tenantIds _ id).2 ⟨b, hb, rfl⟩⟩
  refine ⟨hb, hs.ownBinding id b hb, fun b' hmem hown => ?_, ?_, ?_, ?_, fun domain => ?_,
    hbyNumber⟩
  · -- a binding stands under the id of its own organization
    obtain ⟨x, hx⟩ := Table.mem_values.1 hmem
    obtain rfl : x = id := (hs.ownBinding x b' hx).symm.trans hown
    exact Option.some.inj (hx.symm.trans hb)
  · rw [ask_tenantDomain, hb]
  · rw [ask_tenantId, hb]
  · exact (hbyNumber _).2 (Tenant.readId?_writeId b.tenantId)
  · rw [ask_organizationOfDomain_eq_ok]
    constructor
    · intro howner
      obtain ⟨b', hb', rfl⟩ := (hs.domains domain id).1 howner
      obtain rfl : b = b' := Option.some.inj (hb.symm.trans hb')
      rfl
    · rintro rfl
      exact (hs.domains _ id).2 ⟨b, hb, rfl⟩

theorem untenanted_of_unbound (hs : s.store.Consistent) (hb : s.store.bindings.get? id = none) :
    d.Untenanted s id := by
  have hnone (b : TenantBinding) : s.store.bindings.get? id ≠ some b := by
    rw [hb]
    exact nofun
  -- whatever led to the id would be a binding of it
  refine ⟨fun b hmem hown => ?_, ?_, ?_, fun domain hfound => ?_, fun text hfound => ?_⟩
  · obtain ⟨x, hx⟩ := Table.mem_values.1 hmem
    obtain rfl : x = id := (hs.ownBinding x b hx).symm.trans hown
    exact hnone b hx
  · rw [ask_tenantDomain, hb]
  · rw [ask_tenantId, hb]
  · obtain ⟨b, hb', -⟩ := (hs.domains domain id).1 (ask_organizationOfDomain_eq_ok.1 hfound)
    exact hnone b hb'
  · obtain ⟨n, -, howner⟩ := ask_organizationOfTenant_eq_ok.1 hfound
    obtain ⟨b, hb', -⟩ := (hs.tenantIds n id).1 howner
    exact hnone b hb'

/-! ## Bindings under changes -/

/-- A record that is written over keeps its binding. -/
theorem Revised.bindings {Makes : Organization → Organization → Prop}
    {run : Except OrganizationError Organization × Surroundings} (h : d.Revised s id Makes run) :
    run.2.store.bindings = s.store.bindings := by
  cases h with
  | refused _ hrun => rw [hrun]
  | left _ hrun => rw [hrun]
  | written _ _ _ hrun =>
    rw [hrun]
    exact s.store.rewritten_bindings ..

/-- All that can become of an addition: it leaves no trace, or its organization gets the binding
that has been provisioned for it, which does not collide. -/
theorem Added.bindings {candidate : Organization}
    {run : Except OrganizationError Organization × Surroundings}
    (h : d.Added setting s candidate run) (hs : s.store.Consistent) :
    (∃ e, run.1 = .error e) ∧ run.2.store = s.store ∨
      ∃ stored binding, run.1 = .ok stored ∧
        (setting.provisioner candidate s.nextTenantId).1 = .ok binding ∧
        ¬ s.store.Collides candidate.id binding ∧
        s.store.bindings.get? candidate.id = none ∧
        run.2.store.bindings = s.store.bindings.insert candidate.id binding := by
  cases h with
  | refused _ hrun =>
    rw [hrun]
    exact .inl ⟨⟨_, rfl⟩, rfl⟩
  | unprovided _ hrun =>
    rw [hrun]
    exact .inl ⟨⟨_, rfl⟩, rfl⟩
  | @bound binding _ _ hprovision hrun =>
    rw [hrun, hprovision]
    rcases s.store.insert_cases candidate binding with ⟨hno, hkept⟩ | ⟨-, -, hfree, hinsert⟩
    · refine .inl ⟨?_, hkept⟩
      -- whatever the reason, the store turns the record down
      rcases houtcome : (s.store.insert candidate binding).1 with stored | _ | _ | conflict
      · exact absurd houtcome (hno stored)
      all_goals exact ⟨_, rfl⟩
    · have hunbound := (Store.conflict?_eq_none.1 hfree).2.1
      rw [hinsert]
      exact .inr ⟨_, binding, rfl, rfl, fun hcollides => hs.conflict?_ne_none hcollides hfree,
        Table.contains_eq_false.1 hunbound, rfl⟩

/-- All that can become of a deletion: it leaves no trace, or a binding goes, with both ways to find
it. -/
theorem Deleted.bindings {run : Except OrganizationError Unit × Surroundings}
    (h : Deleted s id run) :
    (∃ e, run.1 = .error e) ∧ run.2.store = s.store ∨
      ∃ binding, run.1 = .ok () ∧ s.store.bindings.get? id = some binding ∧
        run.2.store.bindings = s.store.bindings.erase id ∧
        run.2.store.domains = s.store.domains.erase binding.tenantDomain ∧
        run.2.store.tenantIds = s.store.tenantIds.erase binding.tenantId := by
  cases h with
  | refused _ hrun =>
    rw [hrun]
    exact .inl ⟨⟨_, rfl⟩, rfl⟩
  | removed hid _ hbinding hrun =>
    subst hid
    rw [hrun]
    exact .inr ⟨_, rfl, hbinding, rfl, rfl, rfl⟩

/-- An addition that is served leaves no trace, or takes the binding that is provisioned. -/
theorem serve_add (hs : s.store.Consistent) (now : Timestamp) (fresh : String) (o : Organization)
    (setting : Setting) :
    (∃ e, d.answer s ⟨.add now fresh o, setting⟩ = .error e) ∧
        (d.serve s ⟨.add now fresh o, setting⟩).store = s.store ∨
      ∃ binding, d.answer s ⟨.add now fresh o, setting⟩ = .ok () ∧
        (setting.provisioner (draft now fresh o) s.nextTenantId).1 = .ok binding ∧
        ¬ s.store.Collides fresh binding ∧ s.store.bindings.get? fresh = none ∧
        (d.serve s ⟨.add now fresh o, setting⟩).store.bindings =
          s.store.bindings.insert fresh binding := by
  have hnext : s.next.store.Consistent := hs
  have hadded : d.Added setting s.next (draft now fresh o)
      ((d.add now fresh o).run setting.still s.next) := add_added hnext.toLinked now fresh o
  dsimp only [answer, serve]
  rw [(setting.run_undisturbed _ s).1, (setting.run_undisturbed _ s).2]
  rcases hadded.bindings hnext with ⟨⟨e, he⟩, hkept⟩ | ⟨stored, binding, hok, hmade⟩
  · rw [he]
    exact .inl ⟨⟨e, rfl⟩, hkept⟩
  · rw [hok]
    exact .inr ⟨binding, rfl, hmade⟩

/-- A deletion that is served leaves no trace, or takes the binding away. -/
theorem serve_delete (hs : s.store.Consistent) (id : String) (setting : Setting) :
    (∃ e, d.answer s ⟨.delete id, setting⟩ = .error e) ∧
        (d.serve s ⟨.delete id, setting⟩).store = s.store ∨
      ∃ binding, d.answer s ⟨.delete id, setting⟩ = .ok () ∧
        s.store.bindings.get? id = some binding ∧
        (d.serve s ⟨.delete id, setting⟩).store.bindings = s.store.bindings.erase id ∧
        (d.serve s ⟨.delete id, setting⟩).store.domains =
          s.store.domains.erase binding.tenantDomain ∧
        (d.serve s ⟨.delete id, setting⟩).store.tenantIds =
          s.store.tenantIds.erase binding.tenantId := by
  have hnext : s.next.store.Consistent := hs
  have hdeleted : Deleted s.next id ((delete id).run setting.still s.next) :=
    delete_deleted hnext id
  dsimp only [answer, serve]
  rw [(setting.run_undisturbed _ s).1, (setting.run_undisturbed _ s).2]
  exact hdeleted.bindings

/-! ## A binding stays -/

/-- Whether none of some requests deletes the organization of an id. -/
def spares (d : Directory) (id : String) : Surroundings → List Request → Bool
  | _, [] => true
  | s, r :: rs =>
    !(r.mutation.deletes id && (d.answer s r).isOk) && d.spares id (d.serve s r) rs

/-- A change leaves the binding of an organization that it does not delete. -/
theorem serve_bound (hs : s.store.Consistent) {r : Request}
    (hspared : (r.mutation.deletes id && (d.answer s r).isOk) = false)
    (hb : s.store.bindings.get? id = some b) :
    (d.serve s r).store.bindings.get? id = some b := by
  obtain ⟨mutation, setting⟩ := r
  have hnext : s.next.store.Consistent := hs
  cases mutation with
  | add now fresh o =>
    rcases serve_add (d := d) hs now fresh o setting with
      ⟨-, hkept⟩ | ⟨binding, -, -, -, hunbound, hinserted⟩
    · rw [hkept]
      exact hb
    · -- the id of the new organization had no binding
      have hne : id ≠ fresh := by
        rintro rfl
        rw [hb] at hunbound
        cases hunbound
      rw [hinserted, Table.get?_insert_of_ne hne]
      exact hb
  | patch now x ops =>
    -- what is written over a record is not bound anew, here and in an update
    dsimp only [serve]
    rw [(setting.run_undisturbed _ s).2, (patch_revised hnext.toLinked now x ops).bindings]
    exact hb
  | update now x currentName o =>
    dsimp only [serve]
    rw [(setting.run_undisturbed _ s).2,
      (update_revised hnext.toLinked now x currentName o).bindings]
    exact hb
  | delete gone =>
    rcases serve_delete (d := d) hs gone setting with
      ⟨-, hkept⟩ | ⟨binding, hok, -, herased, -, -⟩
    · rw [hkept]
      exact hb
    · -- the deletion has been made, so it is that of another id
      rw [hok, show (Except.ok () : Except OrganizationError Unit).isOk = true from rfl,
        Bool.and_true] at hspared
      have hne : id ≠ gone := Ne.symm (beq_eq_false_iff_ne.1 hspared)
      rw [herased, Table.get?_erase, if_neg hne]
      exact hb

theorem foldl_bound {more : List Request} (hs : s.store.Consistent)
    (hspared : d.spares id s more = true) (hb : s.store.bindings.get? id = some b) :
    (more.foldl d.serve s).store.Consistent ∧
      (more.foldl d.serve s).store.bindings.get? id = some b := by
  -- on the requests, from any consistent store on
  induction more generalizing s with
  | nil => exact ⟨hs, hb⟩
  | cons r more ih =>
    rw [spares, Bool.and_eq_true, Bool.not_eq_true'] at hspared
    exact ih (serve_consistent hs r) hspared.2 (serve_bound hs hspared.1 hb)

/-! ## Where a tenant begins and ends -/

/-- Where an organization has been deleted, its tenant leads nowhere. -/
theorem untenanted_of_deleted (hs : s.store.Consistent) (h : d.Tenanted s id b)
    (hdeleted : d.answer s ⟨.delete id, setting⟩ = .ok ()) :
    let left := d.serve s ⟨.delete id, setting⟩
    d.Untenanted left id ∧
      d.ask left (.organizationOfDomain b.tenantDomain) =
        .error (.notFound (.tenantDomain b.tenantDomain)) ∧
      ∀ text, Tenant.readId? text = some b.tenantId →
        d.ask left (.organizationOfTenant text) = .error (.notFound (.tenant text)) := by
  intro left
  rcases serve_delete (d := d) hs id setting with
    ⟨⟨e, he⟩, -⟩ | ⟨binding, -, hbinding, hbindings, hdomains, hnumbers⟩
  · rw [hdeleted] at he
    cases he
  · obtain rfl : b = binding := Option.some.inj (h.bound.symm.trans hbinding)
    refine ⟨untenanted_of_unbound (serve_consistent hs _) ?_, ?_, fun text htext => ?_⟩
    · rw [hbindings, Table.get?_erase, if_pos rfl]
    · rw [ask_organizationOfDomain, hdomains, Table.get?_erase, if_pos rfl]
    · rw [ask_organizationOfTenant, htext, hnumbers]
      dsimp only
      rw [Table.get?_erase, if_pos rfl]

/-- An organization that has been added has the tenant that was provisioned for it. -/
theorem tenanted_of_added (hs : s.store.Consistent) {now : Timestamp} {fresh : String}
    {o : Organization} (hadded : d.answer s ⟨.add now fresh o, setting⟩ = .ok ()) :
    ∃ b, (setting.provisioner (draft now fresh o) s.nextTenantId).1 = .ok b ∧
      d.Tenanted (d.serve s ⟨.add now fresh o, setting⟩) fresh b := by
  rcases serve_add (d := d) hs now fresh o setting with
    ⟨⟨e, he⟩, -⟩ | ⟨b, -, hprovided, -, -, hinserted⟩
  · rw [hadded] at he
    cases he
  · refine ⟨b, hprovided, tenanted_of_bound (serve_consistent hs _) ?_⟩
    rw [hinserted, Table.get?_insert_self]

/-- A tenant that cannot be had fails the addition, which leaves no trace. -/
theorem serve_add_of_collides (hs : s.store.Consistent) {now : Timestamp} {fresh : String}
    {o : Organization}
    (hprovided : (setting.provisioner (draft now fresh o) s.nextTenantId).1 = .ok b)
    (hcollides : s.store.Collides fresh b) :
    (∃ e, d.answer s ⟨.add now fresh o, setting⟩ = .error e) ∧
      (d.serve s ⟨.add now fresh o, setting⟩).store = s.store := by
  rcases serve_add (d := d) hs now fresh o setting with
    hrefused | ⟨binding, -, hprovided', hnot, -, -⟩
  · exact hrefused
  · obtain rfl : b = binding := Except.ok.inj (hprovided.symm.trans hprovided')
    exact absurd hcollides hnot

/-- **An organization has one tenant for life.** After whatever changes of an empty store, with
tenants from whatever provisioners: every organization is bound to one tenant, whose domain and
number lead to the organization, and no other domain or number does; nothing leads to an id without
organization. The tenant stays the same until the organization is deleted; then its domain and its
number lead nowhere. An organization that is added gets the tenant that is provisioned for it, and
if this tenant is meant for another one or has a domain or a number that is in use, the addition
fails and leaves the store as it was. -/
theorem tenants_after (d : Directory) (first : Int64) (requests : List Request) :
    let s := d.after first requests
    (∀ id, s.store.organizations.contains id = true → ∃ b, d.Tenanted s id b) ∧
    (∀ id, s.store.organizations.contains id = false → d.Untenanted s id) ∧
    (∀ id b more, d.Tenanted s id b → d.spares id s more = true →
      d.Tenanted (d.after first (requests ++ more)) id b) ∧
    (∀ id b setting, d.Tenanted s id b → d.answer s ⟨.delete id, setting⟩ = .ok () →
      let left := d.serve s ⟨.delete id, setting⟩
      d.Untenanted left id ∧
        d.ask left (.organizationOfDomain b.tenantDomain) =
          .error (.notFound (.tenantDomain b.tenantDomain)) ∧
        ∀ text, Tenant.readId? text = some b.tenantId →
          d.ask left (.organizationOfTenant text) = .error (.notFound (.tenant text))) ∧
    ∀ now fresh o setting,
      let request : Request := ⟨.add now fresh o, setting⟩
      let provided := (setting.provisioner (draft now fresh o) s.nextTenantId).1
      (d.answer s request = .ok () →
        ∃ b, provided = .ok b ∧ d.Tenanted (d.serve s request) fresh b) ∧
      ∀ b, provided = .ok b → s.store.Collides fresh b →
        (∃ e, d.answer s request = .error e) ∧ (d.serve s request).store = s.store := by
  intro s
  have hs : s.store.Consistent := after_consistent first requests
  refine ⟨fun id hid => ?_, fun id hid => ?_, fun id b more htenanted hspared => ?_,
    fun id b setting htenanted hdeleted => untenanted_of_deleted hs htenanted hdeleted,
    fun now fresh o setting => ⟨fun hadded => tenanted_of_added hs hadded,
      fun b hprovided hcollides => serve_add_of_collides hs hprovided hcollides⟩⟩
  · obtain ⟨b, hb⟩ := Table.contains_iff.1 ((hs.bound id).2 hid)
    exact ⟨b, tenanted_of_bound hs hb⟩
  · refine untenanted_of_unbound hs (Table.contains_eq_false.1 ?_)
    rw [Bool.eq_false_iff, ne_eq, hs.bound, hid]
    exact Bool.false_ne_true
  · obtain ⟨hs', hb'⟩ := foldl_bound hs hspared htenanted.bound
    rw [after, List.foldl_append]
    exact tenanted_of_bound hs' hb'

/-- A setting in which every organization is to get the same domain and number. -/
def handing (domain : String) (number : Int64) : Setting :=
  { Setting.plain with provisioner := fun o next => (.ok ⟨o.id, domain, number⟩, next) }

/-- A domain and a number that are in use when they are given out again, and then free again. -/
def reassigned : List Request := [
  ⟨.add .epoch "a" (.new .epoch "First"), handing "x.example" (-5)⟩,
  ⟨.add .epoch "b" (.new .epoch "Second"), handing "x.example" 7⟩,
  ⟨.delete "a", .plain⟩,
  ⟨.add .epoch "b" (.new .epoch "Second"), handing "x.example" (-5)⟩]

theorem tenants_after_reassigned :
    let s := standard.after 1 reassigned
    let request : Request := ⟨.add .epoch "c" (.new .epoch "Third"), handing "y.example" (-5)⟩
    (∃ b, standard.Tenanted s "b" b) ∧ standard.Untenanted s "a" ∧
      s.store.bindings.get? "b" = some ⟨"b", "x.example", -5⟩ ∧
      standard.ask s (.organizationOfTenant "-5") = .ok "b" ∧
      (∃ e, standard.answer s request = .error e) ∧
        (standard.serve s request).store = s.store := by
  intro s request
  have hb : s.store.bindings.get? "b" = some ⟨"b", "x.example", -5⟩ := by decide +kernel
  have hkept : s.store.organizations.contains "b" = true := by decide +kernel
  have hgone : s.store.organizations.contains "a" = false := by decide +kernel
  obtain ⟨hheld, hfree, -, -, hadd⟩ := tenants_after standard 1 reassigned
  obtain ⟨b, htenanted⟩ := hheld "b" hkept
  obtain rfl : b = ⟨"b", "x.example", -5⟩ := Option.some.inj (htenanted.bound.symm.trans hb)
  exact ⟨⟨_, htenanted⟩, hfree "a" hgone, hb, htenanted.back,
    (hadd .epoch "c" (.new .epoch "Third") (handing "y.example" (-5))).2 ⟨"c", "y.example", -5⟩ rfl
      (.inr ⟨"b", _, hb, .inr rfl⟩)⟩

end Directory

end OrgForest
