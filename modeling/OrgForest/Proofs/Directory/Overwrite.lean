import OrgForest.Proofs.Directory.Asks
import OrgForest.Proofs.Directory.History
import OrgForest.Proofs.Directory.Rounds
import OrgForest.Proofs.Patch.Spared
import OrgForest.Proofs.Program.Versions

/-!
# No lost updates

A change of a record looks up a good deal between loading the record and writing its candidate, and
at every look-up others may change the store. Still the candidate is only ever written over the
record that it has been computed from: the write names the version that was loaded, and between two
moments with one version nothing has been stored.

* `Directory.LoadedFrom`, `Directory.Careful` — how a change goes about the record it changes;
* `Directory.Loads` — the first part of a change, up to the loading of the record;
* `Directory.careful_of_loads` — loading, looking up, writing;
* `Directory.changes_careful` — patches and updates.
-/

namespace OrgForest.Directory

variable {d : Directory} {id : String} {Makes : Organization → Organization → Prop}

/-! ## How a change goes about -/

/-- A record is what the last look-up of the id has been answered. What has happened since then
comes along. -/
structure LoadedFrom (id : String) (past : List Moment) (loaded : Organization)
    (since : List Moment) : Prop where
  loaded : ∃ before s, past = before ++ ⟨s, .own (.get id)⟩ :: since ∧
    s.organizations.get? id = some loaded
  last : ∀ m ∈ since, m.event ≠ .own (.get id)

/-- The action's own calls are look-ups. -/
def Quiet (past : List Moment) : Prop := ∀ m ∈ past, m.Fits fun c => c.isWrite = false

/-- What a change of the record of an id comes to. It writes nothing, or its last call is the only
write, of a candidate that is made of the record loaded. If that write is accepted, it has replaced
the very record that was loaded and nothing has been stored under the id since. The version that
tells is a word of 64 bits, so somebody who stores the record that many times in between is not
found out. -/
inductive Careful (id : String) (Makes : Organization → Organization → Prop)
    (run : Except OrganizationError Organization × Disturbed) : Prop where
  | idle (hquiet : Quiet run.2.past)
      (hresult : (∃ e, run.1 = .error e) ∨
        ∃ loaded since, LoadedFrom id run.2.past loaded since ∧ run.1 = .ok loaded)
  | refused {past since : List Moment} {loaded candidate : Organization}
      (hpast : run.2.past = past ++ [⟨run.2.store, .own (.update candidate loaded.version)⟩])
      (hquiet : Quiet past) (hloaded : LoadedFrom id past loaded since)
      (hmakes : Makes loaded candidate) (hresult : ∃ e, run.1 = .error e)
  | accepted {past since : List Moment} {s : Store} {loaded candidate stored : Organization}
      (hpast : run.2.past = past ++ [⟨s, .own (.update candidate loaded.version)⟩])
      (hquiet : Quiet past) (hloaded : LoadedFrom id past loaded since)
      (hmakes : Makes loaded candidate)
      (hwrite : s.update candidate loaded.version = (.ok (.updated stored), run.2.store))
      (hresult : run.1 = .ok stored)
      (hstored : stored.id = id ∧ stored.version = loaded.version + 1)
      (hkept : since.countP (·.writes id) = 0 ∧ s.organizations.get? id = some loaded ∨
        UInt64.size ≤ since.countP (·.writes id))

/-! ## Loading -/

/-- The action looks things up, and if it succeeds, then its last call has been answered with the
record that its answer carries. -/
def Loads {α : Type} (id : String) (a : Action α) (record : α → Organization) : Prop :=
  ∀ d : Disturbed, ∃ new, d.Leads new (a.run Disturbed.environment d).2 ∧ Quiet new ∧
    ∀ x, (a.run Disturbed.environment d).1 = .ok x → ∃ before s,
      new = before ++ [⟨s, .own (.get id)⟩] ∧ s.organizations.get? id = some (record x)

theorem load_loads (id : String) : Loads id (load id) fun o => o := by
  intro d
  obtain ⟨new, hcall, hothers⟩ := Disturbed.leads_call (.get id) d
  rw [run_load_disturbed]
  refine ⟨_, hcall, Disturbed.fits_of_call hothers rfl, fun o ho => ⟨new, _, rfl, ?_⟩⟩
  dsimp only at ho
  split at ho
  · next o' ho' =>
    obtain rfl : o' = o := Except.ok.inj ho
    exact ho'
  · cases ho

theorem Quiet.append {new new' : List Moment} (h : Quiet new) (h' : Quiet new') :
    Quiet (new ++ new') := by
  intro m hm
  rcases List.mem_append.1 hm with hm | hm
  · exact h m hm
  · exact h' m hm

/-- Whatever the loop has loaded in earlier rounds, it is the last one that counts. -/
theorem holdWithParent_loads (id : String) :
    Loads id (holdWithParent id) fun held => held.2 := by
  intro d
  rw [holdWithParent, Action.run_iterate]
  obtain ⟨tries, last, s, hleads, htries, hlast, hended⟩ :=
    run_holdRounds id (Disturbed.environment.horizon d) (ahead_lt_horizon d)
  have hquiet : Quiet tries.flatten := by
    intro m hm
    obtain ⟨ms, hms, hm⟩ := List.mem_flatten.1 hm
    obtain ⟨_, _, _, hround, -, -⟩ := htries ms hms
    exact hround.reads m hm
  refine ⟨_, hleads, hquiet.append hlast.reads, fun held hheld => ?_⟩
  obtain ⟨front, rfl⟩ := hlast.exists_front
  refine ⟨tries.flatten ++ front, _, (List.append_assoc ..).symm, ?_⟩
  cases hended with
  | missing _ hresult =>
    rw [hresult] at hheld
    cases hheld
  | agreed hfound _ hresult =>
    rw [hresult] at hheld
    cases hheld
    exact hfound

/-! ## Loading, looking up, writing -/

/-- What is left to do once all has been looked up: to fail, to leave the record as it is, or to
write a candidate over the version that was loaded. -/
inductive Finish (Makes : Organization → Organization → Prop) (current : Organization) :
    Action Organization → Prop where
  | fail (e : OrganizationError) : Finish Makes current (throw e)
  | leave : Finish Makes current (pure current)
  | write {candidate : Organization} (hmakes : Makes current candidate) :
      Finish Makes current (write candidate current.version)

/-- The write that ends a change is accepted, and then its answer is that of the change, or it
changes nothing, and the change fails. -/
theorem run_write (candidate : Organization) (expected : UInt64) (d : Disturbed) :
    ∃ result, (write candidate expected).run Disturbed.environment d =
        (result, d.interrupted.happen (.own (.update candidate expected))) ∧
      ((∃ stored, d.interrupted.store.update candidate expected =
            (.ok (.updated stored), (d.interrupted.store.update candidate expected).2) ∧
          result = .ok stored) ∨
        (d.interrupted.store.update candidate expected).2 = d.interrupted.store ∧
          ∃ e, result = .error e) := by
  rw [write, Action.run_bind, Action.run_call]
  dsimp only [Store.perform]
  -- every answer but the accepted one is turned into an error
  rcases Store.update_cases d.interrupted.store candidate expected with
    ⟨hno, hsame⟩ | ⟨existing, -, -, haccepted⟩
  · rcases hupdate : (d.interrupted.store.update candidate expected).1 with
      e | stored | _ | _ | _ | _
    · exact ⟨_, rfl, .inr ⟨hsame, _, rfl⟩⟩
    · exact absurd hupdate (hno stored)
    all_goals exact ⟨_, rfl, .inr ⟨hsame, _, rfl⟩⟩
  · have hupdate : (d.interrupted.store.update candidate expected).1 =
        .ok (.updated (candidate.asNext existing)) := by
      rcases haccepted with ⟨-, h⟩ | ⟨-, -, h⟩ <;> rw [h]
    rw [hupdate]
    exact ⟨_, rfl, .inl ⟨_, Prod.ext hupdate rfl, rfl⟩⟩

/-- An accepted update has found the version that it expects. -/
theorem existing_of_updated {s t : Store} {candidate stored : Organization} {expected : UInt64}
    (h : s.update candidate expected = (.ok (.updated stored), t)) :
    ∃ existing, s.organizations.get? candidate.id = some existing ∧ existing.version = expected ∧
      stored = candidate.asNext existing := by
  rcases Store.update_cases s candidate expected with
    ⟨hno, -⟩ | ⟨existing, hget, hversion, haccepted⟩
  · exact absurd (congrArg Prod.fst h) (hno stored)
  · refine ⟨existing, hget, hversion, ?_⟩
    rcases haccepted with ⟨-, haccepted⟩ | ⟨-, -, haccepted⟩
    all_goals
      rw [haccepted] at h
      cases h
      rfl

/-- A record that others may have written over since it was loaded: if its version is the one
loaded, nothing has been stored in between, or far too much. -/
theorem kept_of_version {since : List Moment} {s t : Store} {loaded existing : Organization}
    (hpath : Disturbed.Path s since t) (hquiet : Quiet since)
    (hfresh : ∀ m ∈ since, m.inserts id = false)
    (hloaded : s.organizations.get? id = some loaded)
    (hexisting : t.organizations.get? id = some existing)
    (hversion : existing.version = loaded.version) :
    since.countP (·.writes id) = 0 ∧ t.organizations.get? id = some loaded ∨
      UInt64.size ≤ since.countP (·.writes id) := by
  obtain ⟨old, hold, hgrown, hsame⟩ := hpath.record
    (fun m hm c hc => hquiet m hm c hc) hfresh hexisting
  obtain rfl : old = loaded := Option.some.inj (hold.symm.trans hloaded)
  by_cases hzero : since.countP (·.writes id) = 0
  · rw [hsame hzero] at hexisting
    exact .inl ⟨hzero, hexisting⟩
  · right
    apply Nat.le_of_not_lt
    intro hlt
    -- the version has come back to what it was, so it has gone all the way round
    rw [hversion] at hgrown
    have hnat := congrArg UInt64.toNat hgrown
    have hword := old.version.toNat_lt
    rw [UInt64.toNat_add, UInt64.toNat_ofNat'] at hnat
    unfold UInt64.size at hlt
    omega

/-- Where the record is found in a consistent store, it carries the id and is not its own parent. -/
theorem own_of_loaded {s : Store} (hs : s.Consistent) {loaded : Organization}
    (hloaded : s.organizations.get? id = some loaded) :
    loaded.id = id ∧ loaded.parentId ≠ some id := by
  refine ⟨hs.ownId id loaded hloaded, fun hself => ?_⟩
  have hup : s.parentId? id = some (some id) := Store.parentId?_eq_some.2 ⟨loaded, hloaded, hself⟩
  obtain ⟨chain, hchain⟩ := hs.lineage (Table.contains_of_get? hloaded)
  obtain ⟨above, -, habove⟩ := hchain.eq_of_child hup
  exact Lineage.not_mem_above hup habove habove.mem_self

/-- The state in which a record has just been loaded, with nothing written before. -/
structure Held (id : String) (f : Disturbed) (loaded : Organization) : Prop where
  consistent : f.store.Consistent
  quiet : Quiet f.past
  found : f.store.organizations.get? id = some loaded
  last : ∃ before, f.past = before ++ [⟨f.store, .own (.get id)⟩]

/-- Who has loaded a record holds it, and has written nothing in any case. -/
theorem Loads.held {α : Type} {first : Action α} {record : α → Organization}
    (hfirst : Loads id first record) {start : Disturbed} (hstart : start.store.Consistent)
    (hpast : start.past = []) :
    Quiet (first.run Disturbed.environment start).2.past ∧
      ∀ x, (first.run Disturbed.environment start).1 = .ok x →
        Held id (first.run Disturbed.environment start).2 (record x) := by
  obtain ⟨new, hleads, hquiet, hlast⟩ := hfirst start
  have hnew : (first.run Disturbed.environment start).2.past = new := by
    rw [hleads.past, hpast]
    rfl
  refine ⟨hnew ▸ hquiet, fun x hx => ?_⟩
  obtain ⟨before, s, rfl, hs⟩ := hlast x hx
  -- the last look-up leaves the store as it is
  obtain ⟨s', -, rfl, hf⟩ := Disturbed.path_split hleads.path
  obtain rfl : (first.run Disturbed.environment start).2.store = s := hf
  exact ⟨hleads.consistent hstart, hnew ▸ hquiet, hs, before, hnew⟩

theorem Held.loadedFrom {f e : Disturbed} {loaded : Organization} {since : List Moment}
    (h : Held id f loaded) (hsince : f.Leads since e)
    (hbeside : ∀ m ∈ since, m.Fits (StoreCall.Beside id)) : LoadedFrom id e.past loaded since := by
  obtain ⟨before, hbefore⟩ := h.last
  refine ⟨⟨before, f.store, ?_, h.found⟩, fun m hm hev => (hbeside m hm _ hev).2 rfl⟩
  rw [hsince.past, hbefore, List.append_assoc]
  rfl

theorem Held.quiet_after {f e : Disturbed} {loaded : Organization} {since : List Moment}
    (h : Held id f loaded) (hsince : f.Leads since e)
    (hbeside : ∀ m ∈ since, m.Fits (StoreCall.Beside id)) : Quiet e.past := by
  rw [hsince.past]
  exact h.quiet.append fun m hm c hc => (hbeside m hm c hc).1

/-- The write that ends a change: before it others act once more. -/
theorem Held.careful_write {f e : Disturbed} {loaded candidate : Organization}
    {since : List Moment} (h : Held id f loaded) (hsince : f.Leads since e)
    (hbeside : ∀ m ∈ since, m.Fits (StoreCall.Beside id)) (hmakes : Makes loaded candidate)
    (hid : candidate.id = id)
    (hfresh : ∀ m ∈ ((write candidate loaded.version).run Disturbed.environment e).2.past,
      m.inserts id = false) :
    Careful id Makes ((write candidate loaded.version).run Disturbed.environment e) := by
  obtain ⟨result, hwrite, hresult⟩ := run_write candidate loaded.version e
  rw [hwrite] at hfresh ⊢
  obtain ⟨more, hmore, hothers⟩ := e.leads_interrupted
  have hall : f.Leads (since ++ more) e.interrupted := hsince.trans hmore
  have hbesideAll : ∀ m ∈ since ++ more, m.Fits (StoreCall.Beside id) := fun m hm =>
    (List.mem_append.1 hm).elim (hbeside m) (Disturbed.fits_of_others hothers m)
  have hquiet := h.quiet_after hall hbesideAll
  have hloaded := h.loadedFrom hall hbesideAll
  rcases hresult with ⟨stored, hupdate, rfl⟩ | ⟨hidle, err, rfl⟩
  · -- accepted: nobody has put in a new record, so the version bears witness
    obtain ⟨existing, hexisting, hversion, rfl⟩ := existing_of_updated hupdate
    rw [hid] at hexisting
    have hfreshAll : ∀ m ∈ since ++ more, m.inserts id = false := by
      intro m hm
      refine hfresh m (List.mem_append_left _ ?_)
      rw [hall.past]
      exact List.mem_append_right _ hm
    have hkept := kept_of_version hall.path (fun m hm c hc => (hbesideAll m hm c hc).1) hfreshAll
      h.found hexisting hversion
    refine .accepted rfl hquiet hloaded hmakes hupdate rfl ⟨hid, ?_⟩ hkept
    rw [← hversion]
    rfl
  · -- refused: the store is the same before the write and after it
    have hstore : (e.interrupted.happen
        (.own (.update candidate loaded.version))).store = e.interrupted.store := hidle
    refine .refused ?_ hquiet hloaded hmakes ⟨err, rfl⟩
    dsimp only
    rw [hstore]
    rfl

/-- Loading, looking up, writing: whoever goes about it this way is careful. -/
theorem careful_of_loads {α : Type} {first : Action α} {record : α → Organization}
    {rest : α → Action Organization} (hfirst : Loads id first record)
    (hrest : ∀ x, (record x).id = id → (record x).parentId ≠ some id →
      (rest x).Reaches (StoreCall.Beside id) (Finish Makes (record x)))
    (hsame : ∀ loaded candidate, Makes loaded candidate → candidate.id = loaded.id)
    {start : Disturbed} (hstart : start.store.Consistent) (hpast : start.past = [])
    (hfresh : ∀ m ∈ ((first >>= rest).run Disturbed.environment start).2.past,
      m.inserts id = false) :
    Careful id Makes ((first >>= rest).run Disturbed.environment start) := by
  obtain ⟨hquiet, hheld⟩ := hfirst.held hstart hpast
  rw [Action.run_bind] at hfresh ⊢
  rcases hload : first.run Disturbed.environment start with ⟨e | x, f⟩
  · -- nothing is loaded
    rw [hload] at hquiet
    exact .idle hquiet (.inl ⟨e, rfl⟩)
  rw [hload] at hheld hfresh
  have hx : Held id f (record x) := hheld x rfl
  obtain ⟨hid, hparent⟩ := own_of_loaded hx.consistent hx.found
  -- since then only look-ups beside the record, up to one of the three ways to finish
  obtain ⟨last, e, since, hend, hsince, hbeside, hrun⟩ := (hrest x hid hparent).leads f
  dsimp only at hfresh ⊢
  rw [hrun] at hfresh ⊢
  cases hend with
  | fail err => exact .idle (hx.quiet_after hsince hbeside) (.inl ⟨err, rfl⟩)
  | leave =>
    exact .idle (hx.quiet_after hsince hbeside) (.inr ⟨_, since, hx.loadedFrom hsince hbeside, rfl⟩)
  | @write candidate hmakes =>
    exact hx.careful_write hsince hbeside hmakes ((hsame _ _ hmakes).trans hid) hfresh

/-! ## Patches and updates -/

theorem patch_careful {start : Disturbed} (hstart : start.store.Consistent)
    (hpast : start.past = []) {now : Timestamp} {ops : List Patch.Operation}
    (hfresh : ∀ m ∈ ((d.patch now id ops).run Disturbed.environment start).2.past,
      m.inserts id = false) :
    Careful id (Patched d now ops) ((d.patch now id ops).run Disturbed.environment start) := by
  refine careful_of_loads (holdWithParent_loads id) (fun held hid hparent => ?_) ?_ hstart hpast
    hfresh
  · obtain ⟨_, current⟩ := held
    dsimp only at hid hparent ⊢
    cases happly : Patch.apply ops current with
    | error e => exact .here (.fail _)
    | ok patched =>
      have hspared := Patch.apply_spared happly
      dsimp only [Except.mapError, Action.check]
      rw [pure_bind]
      split
      · exact .here .leave
      -- the rest, once the name is known in the form in which it is stored
      have hrest (name : String)
          (hname : name = patched.name ∧ name = current.name ∨
            d.validName patched.name = .ok name) :
          (do
            vetStatus id current { patched with name }
            write { patched with name, lastModified := now } current.version :
            Action Organization).Reaches (StoreCall.Beside id)
              (Finish (Patched d now ops) current) := by
        have hstatus : (vetStatus id current { patched with name }).Asks (StoreCall.Beside id) :=
          vetStatus_asks id (hspared.parentId ▸ hparent)
        exact hstatus.reaches (fun _ => .here (.write ⟨patched, name, happly, hname, rfl⟩)) .fail
      split
      · next hname => exact hrest patched.name (.inl ⟨rfl, hname⟩)
      · cases hname : d.validName patched.name with
        | error fault => exact .here (.fail _)
        | ok name =>
          have hfree : (d.requireFreeName id current { patched with name }).Asks
              (StoreCall.Beside id) := requireFreeName_asks id current _
          exact hfree.reaches (fun _ => hrest name (.inr hname)) .fail
  · rintro loaded candidate ⟨patched, name, happlied, -, rfl⟩
    exact (Patch.apply_spared happlied).id

/-- The rest of an update, once the record is known not to come below itself. -/
theorem edit_reaches {current : Organization} (candidate : Organization)
    (hparent : candidate.parentId ≠ some id) {now : Timestamp}
    (hmakes : Makes current { candidate with lastModified := now }) :
    (do
      if candidate.agreesWith current then return current
      if candidate.name ≠ current.name then d.requireFreeName id current candidate
      vetStatus id current candidate
      write { candidate with lastModified := now } current.version :
      Action Organization).Reaches (StoreCall.Beside id) (Finish Makes current) := by
  have hstatus : (vetStatus id current candidate).Asks (StoreCall.Beside id) :=
    vetStatus_asks id hparent
  have hlast : (do
      vetStatus id current candidate
      write { candidate with lastModified := now } current.version :
      Action Organization).Reaches (StoreCall.Beside id) (Finish Makes current) :=
    hstatus.reaches (fun _ => .here (.write hmakes)) .fail
  split
  · exact .here .leave
  · split
    · have hfree : (d.requireFreeName id current candidate).Asks (StoreCall.Beside id) :=
        requireFreeName_asks id current candidate
      exact hfree.reaches (fun _ => hlast) .fail
    · exact hlast

theorem update_careful {start : Disturbed} (hstart : start.store.Consistent)
    (hpast : start.past = []) {now : Timestamp} {currentName : String} {o : Organization}
    (hfresh : ∀ m ∈ ((d.update now id currentName o).run Disturbed.environment start).2.past,
      m.inserts id = false) :
    Careful id (Replaced d now o)
      ((d.update now id currentName o).run Disturbed.environment start) := by
  have hidle (e : OrganizationError) : Careful id (Replaced d now o)
      ((throw e : Action Organization).run Disturbed.environment start) := by
    refine .idle ?_ (.inl ⟨e, rfl⟩)
    show Quiet start.past
    rw [hpast]
    intro m hm
    cases hm
  revert hfresh
  unfold update
  -- what is refused before the record is loaded takes no call at all
  cases hname : d.validName o.name with
  | error fault => exact fun _ => hidle _
  | ok name =>
    cases hattributes : validAttributes o.attributes with
    | error fault => exact fun _ => hidle _
    | ok _ =>
      dsimp only [Action.check]
      rw [pure_bind, pure_bind]
      intro hfresh
      refine careful_of_loads (load_loads id) (fun current hid hparent => ?_) ?_ hstart hpast hfresh
      · have hmakes : Replaced d now o current
            { edited o name current with lastModified := now } := ⟨name, hname, rfl⟩
        split
        · exact .here (.fail _)
        · split
          · by_cases hself : o.parentId = some id
            · -- a move below itself goes no further
              obtain ⟨e, he⟩ := vetMove_self (d := d) current
              have hthrow : d.vetMove current o.parentId = throw e := by
                rw [hself, ← hid]
                exact he
              rw [hthrow]
              exact .here (.fail e)
            · exact (vetMove_asks hself).reaches
                (fun _ => edit_reaches (edited o name current) hself hmakes) .fail
          · next hkept =>
            have hother : o.parentId ≠ some id := by
              have hsame : o.parentId = current.parentId := Decidable.not_not.1 hkept
              rw [hsame]
              exact hparent
            exact edit_reaches (edited o name current) hother hmakes
      · rintro loaded candidate ⟨name, -, rfl⟩
        rfl

/-- **No update is lost.** Whatever others do to a store between the calls of a patch or an update of
an organization, as long as they put no new record under its id: the change writes at most once, as
its last call; a write that is accepted has replaced the very record that the candidate has been
computed from, whose version is one less; and if others have stored the record since it was loaded,
the write is refused and the change fails. Others that store it `2 ^ 64` times or more in between go
unnoticed if they bring its version back to what it was, and nothing is said of the record that an
accepted write replaces then. -/
theorem changes_careful (changes : List StoreChange) (ahead : List (List StoreChange)) (id : String)
    (d : Directory) (now : Timestamp) :
    let start : Disturbed := ⟨Store.after changes, ahead, []⟩
    (∀ ops : List Patch.Operation,
      let run := (d.patch now id ops).run Disturbed.environment start
      (∀ m ∈ run.2.past, m.inserts id = false) → Careful id (Patched d now ops) run) ∧
    ∀ (currentName : String) (o : Organization),
      let run := (d.update now id currentName o).run Disturbed.environment start
      (∀ m ∈ run.2.past, m.inserts id = false) → Careful id (Replaced d now o) run := by
  intro start
  have hstart : start.store.Consistent := .after changes
  exact ⟨fun ops => patch_careful hstart rfl, fun currentName o => update_careful hstart rfl⟩

/-- An organization that others are about to give another name. -/
def old : Organization := { Organization.new .epoch "Old" with id := "a" }

def renamed : Organization := { old with name := "Renamed" }

/-- The organization in its store, and what others do next. -/
def inStore (ahead : List (List StoreChange)) : Disturbed :=
  ⟨Store.after [.insert old ⟨"a", "a.example", 1⟩], ahead, []⟩

/-- A patch that brings a description, and the record that an update brings one with. -/
def describe : List Patch.Operation := [⟨.replace, "/description", some (.string "new")⟩]

def described : Organization := { renamed with description := some "new" }

/-- A patch and an update each lose the race if the record is stored between the loading and the
write, and win it if it has been stored before the loading. -/
theorem changes_careful_raced :
    let patch (ahead : List (List StoreChange)) :=
      (standard.patch .epoch "a" describe).run Disturbed.environment (inStore ahead)
    let update (ahead : List (List StoreChange)) :=
      (standard.update .epoch "a" "Renamed" described).run Disturbed.environment (inStore ahead)
    (∀ ahead ∈ [[[], [], [.update renamed 1]], [[.update renamed 1]]],
        (∀ m ∈ (patch ahead).2.past, m.inserts "a" = false) ∧
          Careful "a" (Patched standard .epoch describe) (patch ahead)) ∧
      (patch [[], [], [.update renamed 1]]).1 = .error (.concurrentModification "a" 1 2) ∧
      (patch [[.update renamed 1]]).1 = .ok { described with version := 3 } ∧
    (∀ ahead ∈ [[[.update renamed 1], [.update renamed 2]], [[.update renamed 1]]],
        (∀ m ∈ (update ahead).2.past, m.inserts "a" = false) ∧
          Careful "a" (Replaced standard .epoch described) (update ahead)) ∧
      (update [[.update renamed 1], [.update renamed 2]]).1 =
        .error (.concurrentModification "a" 2 3) ∧
      (update [[.update renamed 1]]).1 = .ok { described with version := 3 } := by
  intro patch update
  have hpatch : ∀ ahead ∈ [[[], [], [.update renamed 1]], [[.update renamed 1]]],
      ∀ m ∈ (patch ahead).2.past, m.inserts "a" = false := by decide +kernel
  have hupdate : ∀ ahead ∈ [[[.update renamed 1], [.update renamed 2]], [[.update renamed 1]]],
      ∀ m ∈ (update ahead).2.past, m.inserts "a" = false := by decide +kernel
  refine ⟨fun ahead h => ⟨hpatch ahead h, ?_⟩, rfl, rfl, fun ahead h => ⟨hupdate ahead h, ?_⟩, rfl,
    rfl⟩
  · exact (changes_careful _ ahead "a" standard .epoch).1 _ (hpatch ahead h)
  · exact (changes_careful _ ahead "a" standard .epoch).2 _ _ (hupdate ahead h)

end OrgForest.Directory
