import OrgForest.Proofs.Directory.Overwrite
import OrgForest.Proofs.Locks

/-!
# Locked together with the parent

A patch works on a record whose lock it holds, together with the lock of the parent that the record
names. The loop that takes the two locks ends, whatever others do meanwhile, and what it ends with
does not depend on how many rounds it is allowed.

All that a patch does about the parent after that, it does about the one whose lock it holds: a
patch cannot move an organization, and before it activates one it looks at this parent.

* `Directory.Locked`, `Directory.Settles` — what the loop ends with, and how it comes to its end;
* `Directory.Inspects`, `Directory.Relies` — what a patch looks at from then on;
* `Directory.Verdict.inspects` — the ways in which a patch goes on;
* `Directory.parents_locked` — the loop ends with the right locks, and patches rely on them.
-/

namespace OrgForest.Directory

variable {id : String}

/-! ## What the loop ends with -/

/-- What the loop ends with: there is no record, or there is one, and the locks are its own and that
of the parent that it names, which is what a caller holds who is served with the two ids. -/
inductive Locked (id : String)
    (run : Except OrganizationError (List String × Organization) × Disturbed) : Prop where
  | missing (hnone : run.2.store.organizations.get? id = none)
      (hresult : run.1 = .error (.notFound (.organization id)))
  | held {locks : List String} {o : Organization}
      (hfound : run.2.store.organizations.get? id = some o) (hid : o.id = id)
      (hlocks : ∀ x, x ∈ locks ↔ x = id ∨ o.parentId = some x)
      (hserved : LockTable.Serves (id :: o.parentId.toList) locks)
      (hresult : run.1 = .ok (locks, o))

theorem Ended.locked {s : Store}
    {run : Except OrganizationError (List String × Organization) × Disturbed}
    (h : Ended id s run) (hrun : run.2.store.Consistent) : Locked id run := by
  cases h with
  | missing hnone hresult => exact .missing hnone hresult
  | agreed hfound _ hresult =>
    refine .held hfound (hrun.ownId id _ hfound) (fun x => ?_) (LockTable.serves_plan _) hresult
    rw [LockTable.mem_plan, List.mem_cons, Option.mem_toList]

/-- How the loop runs that locks an organization together with its parent. -/
structure Settles (id : String) (start : Disturbed)
    (run : Except OrganizationError (List String × Organization) × Disturbed) : Prop where
  /-- It ends by itself: as soon as there are more rounds than changes to come, how many are allowed
  makes no difference. -/
  ends : ∀ horizon n, start.ahead.flatten.length < n →
    (Action.rounds horizon (fun _ => holdRound id) n ()).run Disturbed.environment start = run
  /-- All of its rounds but the last have been crossed, and there is at most one more of them than
  changes have been made. -/
  rounds : ∃ (tries : List (List Moment)) (last : List Moment) (s : Store),
    run.2.past = tries.flatten ++ last ∧ (∀ ms ∈ tries, Crossed id ms) ∧
      Round id last s run.2.store ∧
      (tries ++ [last]).length ≤ (run.2.past.filterMap Moment.others?).length + 1
  /-- The changes that have been made are the first of those that were to come. -/
  made : run.2.past.filterMap Moment.others? <+: start.ahead.flatten
  locked : Locked id run

theorem holdWithParent_settles {start : Disturbed} (hstart : start.store.Consistent)
    (hpast : start.past = []) :
    Settles id start ((holdWithParent id).run Disturbed.environment start) := by
  have henough := ahead_lt_horizon start
  have hothers := (holdWithParent id).run_others start
  rw [holdWithParent, Action.run_iterate] at hothers ⊢
  obtain ⟨tries, last, s, hleads, htries, hlast, hended⟩ :=
    run_holdRounds id (Disturbed.environment.horizon start) henough
  -- the past is empty at the start, so all that is in it has happened in the rounds
  have hmoments := hleads.past
  rw [hpast, List.nil_append] at hmoments
  refine ⟨fun horizon n hn => run_holdRounds_eq id horizon _ hn henough,
    ⟨tries, last, s, hmoments, htries, hlast, ?_⟩, ?_, hended.locked (hleads.consistent hstart)⟩
  · have hle := length_le_others htries
    rw [hmoments, List.filterMap_append, List.length_append, List.length_append,
      List.length_singleton]
    omega
  · -- what others have not done by then is still ahead
    refine ⟨_, hothers.trans ?_⟩
    unfold Disturbed.others
    rw [hpast]
    rfl

/-! ## What a patch looks at -/

/-- No record has been looked up. -/
def Blind (since : List Moment) : Prop := ∀ m ∈ since, ∀ x, m.event ≠ .own (.get x)

theorem blind_nil : Blind [] := fun _ hm => (List.not_mem_nil hm).elim

/-- Why an organization must not be activated below a parent that is not active. -/
def refusal (s : Store) (id parent : String) : OrganizationError :=
  if s.organizations.contains parent then .badRequest (.activatedBelowDisabled id parent)
  else .notFound (.organization parent)

/-- What a patch does about the parent of an organization, in the moments since it has been locked
together with it. -/
structure Inspects (id : String) (locks : List String) (o : Organization) (since : List Moment)
    (outcome : Except OrganizationError Organization) : Prop where
  /-- No record is looked at but that of the parent whose lock is held, and that one only for an
  organization that is not active. -/
  locked : ∀ m ∈ since, ∀ x, m.event = .own (.get x) →
    o.isActive = false ∧ o.parentId = some x ∧ x ∈ locks
  /-- If the parent is not found to be active, that is why the patch fails. -/
  refused : ∀ m ∈ since, ∀ x, m.event = .own (.get x) → ¬ m.store.Active x →
    outcome = .error (refusal m.store id x)
  /-- Below a parent no organization is activated that has not been looked at so. -/
  activated : ∀ stored p, outcome = .ok stored → o.isActive = false → stored.isActive = true →
    o.parentId = some p → ∃ m ∈ since, m.event = .own (.get p) ∧ m.store.Active p

section Inspection

variable {locks : List String} {o : Organization} {before since : List Moment}
  {outcome : Except OrganizationError Organization}

theorem Inspects.of_blind (hblind : Blind since)
    (hroot : ∀ stored, outcome = .ok stored → o.isActive = false → stored.isActive = true →
      o.parentId = none) : Inspects id locks o since outcome where
  locked m hm x hx := absurd hx (hblind m hm x)
  refused m hm x hx := absurd hx (hblind m hm x)
  activated stored p hstored hoff hon hp := by
    rw [hroot stored hstored hoff hon] at hp
    cases hp

/-- One look at the parent whose lock is held, with nothing to be seen of a record afterwards. -/
theorem Inspects.of_look {s : Store} {parent : String} (hoff : o.isActive = false)
    (hparent : o.parentId = some parent) (hlocked : parent ∈ locks) (hblind : Blind since)
    (hrefused : ¬ s.Active parent → outcome = .error (refusal s id parent))
    (hactive : ∀ stored, outcome = .ok stored → s.Active parent) :
    Inspects id locks o (⟨s, .own (.get parent)⟩ :: since) outcome where
  locked m hm x hx := by
    rcases List.mem_cons.1 hm with rfl | hm
    · cases hx
      exact ⟨hoff, hparent, hlocked⟩
    · exact absurd hx (hblind m hm x)
  refused m hm x hx hno := by
    rcases List.mem_cons.1 hm with rfl | hm
    · cases hx
      exact hrefused hno
    · exact absurd hx (hblind m hm x)
  activated stored p hstored _ _ hp := by
    obtain rfl : parent = p := Option.some.inj (hparent.symm.trans hp)
    exact ⟨_, List.mem_cons_self, rfl, hactive stored hstored⟩

/-- What has happened before, without a look at a record, makes no difference. -/
theorem Inspects.after (h : Inspects id locks o since outcome) (hblind : Blind before) :
    Inspects id locks o (before ++ since) outcome where
  locked m hm x hx := by
    rcases List.mem_append.1 hm with hm | hm
    · exact absurd hx (hblind m hm x)
    · exact h.locked m hm x hx
  refused m hm x hx := by
    rcases List.mem_append.1 hm with hm | hm
    · exact absurd hx (hblind m hm x)
    · exact h.refused m hm x hx
  activated stored p hstored hoff hon hp := by
    obtain ⟨m, hm, hseen⟩ := h.activated stored p hstored hoff hon hp
    exact ⟨m, List.mem_append_right _ hm, hseen⟩

end Inspection

/-- The ways in which a patch goes on once all but the parent has been looked at. -/
inductive Verdict (id : String) (o : Organization) : Action Organization → Prop where
  | fail (e : OrganizationError) : Verdict id o (throw e)
  | leave : Verdict id o (pure o)
  | write {candidate : Organization}
      (hroot : o.isActive = false → candidate.isActive = true → o.parentId = none) :
      Verdict id o (write candidate o.version)
  | activate {candidate : Organization} {parent : String} (hoff : o.isActive = false)
      (hparent : o.parentId = some parent) :
      Verdict id o (do requireActiveParent id parent; write candidate o.version)

theorem blind_of_others {new : List Moment} {changes : List StoreChange}
    (hothers : ∀ m ∈ new, ∃ c ∈ changes, m.event = .others c) : Blind new := by
  intro m hm x hx
  obtain ⟨c, -, hc⟩ := hothers m hm
  rw [hc] at hx
  cases hx

/-- The write at the end of a patch: what is stored has the status of the candidate. -/
theorem write_blind (candidate : Organization) (expected : UInt64) (e : Disturbed) :
    ∃ new, e.Leads new ((write candidate expected).run Disturbed.environment e).2 ∧ Blind new ∧
      ∀ stored, ((write candidate expected).run Disturbed.environment e).1 = .ok stored →
        stored.isActive = candidate.isActive := by
  obtain ⟨result, hrun, hresult⟩ := run_write candidate expected e
  obtain ⟨new, hleads, hothers⟩ := e.leads_interrupted
  rw [hrun]
  refine ⟨_, hleads.trans (Disturbed.leads_happen _ _), fun m hm x hx => ?_, fun stored h => ?_⟩
  · rcases List.mem_append.1 hm with hm | hm
    · exact blind_of_others hothers m hm x hx
    · obtain rfl := List.mem_singleton.1 hm
      cases hx
  · rcases hresult with ⟨stored', hupdate, rfl⟩ | ⟨-, err, rfl⟩
    · obtain rfl : stored' = stored := Except.ok.inj h
      obtain ⟨existing, -, -, rfl⟩ := existing_of_updated hupdate
      rfl
    · cases h

/-- A look at the parent: what is found there decides. -/
theorem run_requireActiveParent (id parent : String) (e : Disturbed) :
    (requireActiveParent id parent).run Disturbed.environment e =
      (if e.interrupted.store.Active parent then .ok ()
        else .error (refusal e.interrupted.store id parent),
      e.interrupted.happen (.own (.get parent))) := by
  have hrun := run_load_disturbed parent e
  rw [requireActiveParent, Action.run_bind, hrun]
  cases hget : e.interrupted.store.organizations.get? parent with
  | none =>
    have hno : ¬ e.interrupted.store.Active parent := by
      rintro ⟨o, ho, -⟩
      rw [hget] at ho
      cases ho
    rw [if_neg hno, refusal, Table.contains_eq_false.2 hget]
    rfl
  | some o =>
    dsimp only
    by_cases hactive : o.isActive = true
    · have hyes : e.interrupted.store.Active parent := ⟨o, hget, hactive⟩
      rw [if_pos hactive, if_pos hyes]
      rfl
    · have hno : ¬ e.interrupted.store.Active parent := by
        rintro ⟨o', ho', hactive'⟩
        obtain rfl : o = o' := Option.some.inj (hget.symm.trans ho')
        exact hactive hactive'
      rw [if_neg hactive, if_neg hno, refusal, Table.contains_of_get? hget]
      rfl

/-- However a patch goes on, it is the parent whose lock is held that it looks at. -/
theorem Verdict.inspects {o : Organization} {last : Action Organization} (h : Verdict id o last)
    {locks : List String} (hlocks : ∀ p, o.parentId = some p → p ∈ locks) (e : Disturbed) :
    ∃ since, e.Leads since (last.run Disturbed.environment e).2 ∧
      Inspects id locks o since (last.run Disturbed.environment e).1 := by
  cases h with
  | fail err =>
    refine ⟨[], .refl e, .of_blind blind_nil fun stored hstored => ?_⟩
    cases hstored
  | leave =>
    -- the organization is as active as it was
    refine ⟨[], .refl e, .of_blind blind_nil fun stored hstored hoff hon => ?_⟩
    obtain rfl : o = stored := Except.ok.inj hstored
    rw [hoff] at hon
    cases hon
  | @write candidate hroot =>
    obtain ⟨new, hleads, hblind, hstatus⟩ := write_blind candidate o.version e
    refine ⟨new, hleads, .of_blind hblind fun stored hstored hoff hon => hroot hoff ?_⟩
    rw [← hstatus stored hstored]
    exact hon
  | @activate candidate parent hoff hparent =>
    let f := e.interrupted.happen (.own (.get parent))
    obtain ⟨before, hbefore, hothers⟩ := e.leads_interrupted
    have hlook : e.Leads (before ++ [⟨e.interrupted.store, .own (.get parent)⟩]) f :=
      hbefore.trans (Disturbed.leads_happen _ _)
    have hblind := blind_of_others hothers
    rw [Action.run_bind, run_requireActiveParent]
    by_cases hactive : e.interrupted.store.Active parent
    · -- the parent is active, so the candidate is written
      rw [if_pos hactive]
      obtain ⟨new, hleads, hquiet, -⟩ := write_blind candidate o.version f
      refine ⟨_, hlook.trans hleads, ?_⟩
      rw [List.append_assoc]
      exact (Inspects.of_look hoff hparent (hlocks _ hparent) hquiet (absurd hactive)
        fun _ _ => hactive).after hblind
    · -- it is not, and that is the end of it
      rw [if_neg hactive]
      refine ⟨_, hlook, (Inspects.of_look hoff hparent (hlocks _ hparent) blind_nil
        (fun _ => rfl) fun stored hstored => ?_).after hblind⟩
      cases hstored

/-! ## Patches -/

/-- A look-up, but of no record. -/
def OfNoRecord (c : StoreCall) : Prop := ∀ x, c.Beside x

theorem blind_of_fits {new : List Moment} (h : ∀ m ∈ new, m.Fits OfNoRecord) : Blind new :=
  fun m hm x hx => (h m hm _ hx x).2 rfl

theorem requireNoActiveChildren_asks (x : String) :
    (requireNoActiveChildren x).Asks OfNoRecord := by
  refine (Action.asks_call fun _ => ⟨rfl, nofun⟩).bind fun found => ?_
  dsimp only
  split
  · exact Action.asks_pure _
  · exact Action.asks_throw _

/-- A candidate that is not moved: the status is looked into, and the candidate is written. -/
theorem vetStatus_reaches {o : Organization} (candidate : Organization)
    (hkept : candidate.parentId = o.parentId) (now : Timestamp) :
    (do
      vetStatus id o candidate
      write { candidate with lastModified := now } o.version :
      Action Organization).Reaches OfNoRecord (Verdict id o) := by
  unfold vetStatus
  cases hon : o.isActive with
  | true =>
    -- it can only be deactivated: its children are listed, no record is looked at
    have hwrite : Verdict id o (write { candidate with lastModified := now } o.version) :=
      .write fun hoff => by rw [hon] at hoff; cases hoff
    cases candidate.isActive with
    | true => exact .here hwrite
    | false =>
      have hvet := (requireNoActiveChildren_asks id).bind fun _ => Action.asks_pure ()
      exact hvet.reaches (fun _ => .here hwrite) .fail
  | false =>
    cases hcandidate : candidate.isActive with
    | false =>
      refine .here (.write fun _ hyes => ?_)
      have hno : candidate.isActive = true := hyes
      rw [hcandidate] at hno
      cases hno
    | true =>
      -- this is an activation, and the candidate has the parent that the record has
      cases hparent : candidate.parentId with
      | none => exact .here (.write fun _ _ => hkept.symm.trans hparent)
      | some parent => exact .here (.activate hon (hkept.symm.trans hparent))

/-- How a patch goes on from the loop that locks its organization. -/
structure Relies (id : String)
    (run : Except OrganizationError (List String × Organization) × Disturbed)
    (patched : Except OrganizationError Organization × Disturbed) : Prop where
  missing : ∀ e, run.1 = .error e → patched = (.error e, run.2)
  held : ∀ locks o, run.1 = .ok (locks, o) →
    ∃ since, run.2.Leads since patched.2 ∧ Inspects id locks o since patched.1

theorem relies_of_reaches {rest : List String × Organization → Action Organization}
    (hrest : ∀ held, (rest held).Reaches OfNoRecord (Verdict id held.2)) {start : Disturbed}
    (hlocked : Locked id ((holdWithParent id).run Disturbed.environment start)) :
    Relies id ((holdWithParent id).run Disturbed.environment start)
      ((holdWithParent id >>= rest).run Disturbed.environment start) := by
  rw [Action.run_bind]
  rcases hrun : (holdWithParent id).run Disturbed.environment start with ⟨e | ⟨locks, o⟩, f⟩
  · refine ⟨fun e' he => ?_, fun _ _ h => (by cases h)⟩
    cases he
    rfl
  · refine ⟨fun _ h => (by cases h), fun locks' o' h => ?_⟩
    cases h
    -- of the locks it is only that of the parent that matters here
    have hparent : ∀ p, o.parentId = some p → p ∈ locks := by
      intro p hp
      rw [hrun] at hlocked
      cases hlocked with
      | missing _ hresult => cases hresult
      | held _ _ hlocks _ hresult =>
        cases hresult
        exact (hlocks p).2 (.inr hp)
    -- no record is looked at up to the last part of the patch
    obtain ⟨last, e, before, hlast, hbefore, hfits, hrest⟩ := (hrest (locks, o)).leads f
    obtain ⟨since, hsince, hinspects⟩ := hlast.inspects hparent e
    rw [← hrest] at hsince hinspects
    exact ⟨_, hbefore.trans hsince, hinspects.after (blind_of_fits hfits)⟩

theorem patch_relies {d : Directory} {now : Timestamp} {ops : List Patch.Operation}
    {start : Disturbed}
    (hlocked : Locked id ((holdWithParent id).run Disturbed.environment start)) :
    Relies id ((holdWithParent id).run Disturbed.environment start)
      ((d.patch now id ops).run Disturbed.environment start) := by
  refine relies_of_reaches (fun held => ?_) hlocked
  obtain ⟨_, o⟩ := held
  dsimp only
  cases happly : Patch.apply ops o with
  | error e => exact .here (.fail _)
  | ok patched =>
    -- operations spare the parent, so the patch is no move
    have hspared := Patch.apply_spared happly
    dsimp only [Except.mapError, Action.check]
    rw [pure_bind]
    split
    · exact .here .leave
    split
    · exact vetStatus_reaches patched hspared.parentId now
    · cases d.validName patched.name with
      | error fault => exact .here (.fail _)
      | ok name =>
        have hfree : (d.requireFreeName id o { patched with name }).Asks OfNoRecord :=
          Action.asks_forall fun x => requireFreeName_asks id o _
        exact hfree.reaches
          (fun _ => vetStatus_reaches { patched with name } hspared.parentId now) .fail

/-! ## Main result -/

/-- **An organization and the parent it names are locked together.** Whatever others do to a store
between the readings of the loop that locks an organization together with its parent: the loop ends
by itself, after at most one round more than there have been changes; either there is no record, or
its locks are that of the record and that of the very parent which the record names; and a patch
that goes on from there decides on activation by looking at this parent. -/
theorem parents_locked (changes : List StoreChange) (ahead : List (List StoreChange))
    (id : String) :
    let start : Disturbed := ⟨Store.after changes, ahead, []⟩
    let run := (holdWithParent id).run Disturbed.environment start
    Settles id start run ∧
      ∀ (d : Directory) (now : Timestamp) (ops : List Patch.Operation),
        Relies id run ((d.patch now id ops).run Disturbed.environment start) := by
  intro start run
  have hstart : start.store.Consistent := .after changes
  have hsettles : Settles id start run := holdWithParent_settles hstart rfl
  exact ⟨hsettles, fun d now ops => patch_relies hsettles.locked⟩

/-- An organization that is moved away from its parent while it is being locked, and its old parent
deactivated. -/
def overtaken : Disturbed :=
  let root : Organization := { Organization.new .epoch "Root" with id := "r" }
  let old : Organization := { root with id := "p", name := "Old", parentId := some "r" }
  let young : Organization := { root with id := "q", name := "New", parentId := some "r" }
  let child : Organization :=
    { root with id := "c", name := "Child", parentId := some "p", status := .disabled }
  ⟨Store.after [.insert root ⟨"r", "r.example", 1⟩, .insert old ⟨"p", "p.example", 2⟩,
      .insert young ⟨"q", "q.example", 3⟩, .insert child ⟨"c", "c.example", 4⟩],
    [[], [.update { child with parentId := some "q" } 1,
      .update { old with status := .disabled } 1]], []⟩

/-- The first round comes to nothing, as the link names `p` and the record `q`. The second one takes
the locks, and the patch looks at `q`, so that it does not matter that `p` is not active. -/
theorem parents_locked_overtaken :
    let run := (holdWithParent "c").run Disturbed.environment overtaken
    let patched := (standard.patch .epoch "c" [⟨.replace, "/status", some (.string "ACTIVE")⟩]).run
      Disturbed.environment overtaken
    (run.1.map Prod.fst = .ok ["c", "q"] ∧
        patched.1.map (fun o => (o.isActive, o.parentId)) = .ok (true, some "q") ∧
        ¬ patched.2.store.Active "p") ∧
      Settles "c" overtaken run ∧ Relies "c" run patched := by
  intro run patched
  exact ⟨⟨rfl, rfl, by decide +kernel⟩, (parents_locked _ _ "c").1,
    (parents_locked _ _ "c").2 standard .epoch _⟩

end OrgForest.Directory
