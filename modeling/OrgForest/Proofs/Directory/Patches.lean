import OrgForest.Proofs.Directory.History
import OrgForest.Proofs.Directory.PutBack
import OrgForest.Proofs.Patch.Order
import OrgForest.Proofs.Patch.Repeated

/-!
# Patches of a directory

A directory patches the record that it has loaded, and writes what has become of it unless nothing
has. What is refused while the operations are done is a bad request, and nothing is written then.
A patch that removes no attribute may be sent again, when the answer to it was lost, say: it is
answered as before and writes nothing, so neither the version nor the time of change is touched.
What a patch makes of the attributes follows from the list of its operations.

* `Directory.run_patch_refused`, `Directory.run_patch_left` — patches that write nothing;
* `Directory.patch_again` — patches that are sent again;
* `Directory.patch_arranged` — what patches make of the attributes.
-/

namespace OrgForest.Directory

variable {setting : Setting} {s : Surroundings} {d : Directory} {id : String}
  {ops : List Patch.Operation} {current patched : Organization}

/-! ## Patches that write nothing -/

theorem run_patch_refused {fault : Patch.PatchError}
    (hheld : s.store.organizations.get? id = some current)
    (hfault : Patch.apply ops current = .error fault) (now : Timestamp) :
    (d.patch now id ops).run setting.still s = (.error (.badRequest (.patch fault)), s) := by
  rw [patch, Action.run_bind, run_holdWithParent, hheld]
  dsimp only
  rw [Action.run_bind, hfault]
  rfl

theorem run_patch_left (hheld : s.store.organizations.get? id = some current)
    (hdone : Patch.apply ops current = .ok patched) (hsame : patched.agreesWith current = true)
    (now : Timestamp) :
    (d.patch now id ops).run setting.still s = (.ok current, s) := by
  have hcheck : (Action.check ((Patch.apply ops current).mapError .patch)).run setting.still s =
      (.ok patched, s) := by
    rw [hdone]
    rfl
  rw [patch, Action.run_bind, run_holdWithParent, hheld]
  dsimp only
  rw [Action.run_bind, hcheck]
  dsimp only
  rw [if_pos hsame]
  rfl

/-! ## Patches that are sent again -/

/-- What is stored of a patch is what the operations have made of the record, dated and counted: the
name comes from them in the form in which it is stored. -/
theorem Patched.eq_stamped {now : Timestamp} {candidate : Organization}
    (hcurrent : Text.trimmed current.name = current.name)
    (h : Patched d now ops current candidate) :
    ∃ patched, Patch.apply ops current = .ok patched ∧
      candidate.asNext current = Patch.stamped now (current.version + 1) patched := by
  obtain ⟨patched, name, hdone, hname, rfl⟩ := h
  refine ⟨patched, hdone, ?_⟩
  -- a name that is kept was stored trimmed, and a name that is given is trimmed first
  have htrimmed : Text.trimmed patched.name = patched.name := by
    rcases Patch.apply_trimmed hdone with hkept | htrimmed
    · rw [hkept, hcurrent]
    · exact htrimmed
  have hsame : name = patched.name := by
    rcases hname with ⟨hsame, -⟩ | hvalid
    · exact hsame
    · rw [(validName_eq_ok hvalid).1, htrimmed]
  have hcreated : patched.created = current.created := (Patch.apply_spared hdone).created
  obtain ⟨hchildren, hpermissions⟩ := Patch.apply_unprojected hdone
  rw [hsame, Organization.asNext, Organization.bare, Patch.stamped, ← hcreated]
  cases patched
  simp_all

/-- Whatever has become of a patch that drops no attribute, becomes of it again, and without a
write. -/
theorem run_patch_again (hs : s.store.Linked)
    (htrimmed : ∀ o, s.store.Holds o → Text.trimmed o.name = o.name)
    (hops : ∀ o ∈ ops, ∀ key, ¬ o.Asks (.drop key)) (now : Timestamp) {stored : Organization}
    (hdone : ((d.patch now id ops).run setting.still s).1 = .ok stored) (setting' : Setting)
    (now' : Timestamp) :
    (d.patch now' id ops).run setting'.still ((d.patch now id ops).run setting.still s).2 =
      (.ok stored, ((d.patch now id ops).run setting.still s).2) := by
  revert hdone
  -- by what has become of the patch the first time
  refine patch_cases (E := fun run => run.1 = .ok stored →
    (d.patch now' id ops).run setting'.still run.2 = (.ok stored, run.2)) hs now id ops ?refused
    ?left ?written
  case refused =>
    intro e _ hdone
    cases hdone
  case left =>
    intro current patched hheld happlied hsame hdone
    obtain rfl : current = stored := Except.ok.inj hdone
    exact run_patch_left hheld happlied hsame now'
  case written =>
    intro current candidate hheld hedit hmakes hdone
    obtain rfl : candidate.asNext current = stored := Except.ok.inj hdone
    obtain rfl : current.id = id := hs.ownId id current hheld
    obtain ⟨patched, happlied, hstored⟩ := hmakes.eq_stamped (htrimmed current hheld)
    -- what has been stored is what the operations make of it
    have happlied' : Patch.apply ops (candidate.asNext current) =
        .ok (candidate.asNext current) := by
      rw [hstored]
      exact Patch.apply_stamped _ _ (Patch.apply_again hops happlied)
    have hheld' : (s.store.rewritten current (candidate.asNext current)).organizations.get?
        current.id = some (candidate.asNext current) := by
      have hid : (candidate.asNext current).id = current.id := hedit.same
      rw [Store.rewritten_organizations, Table.get?_insert, if_pos hid.symm]
    exact run_patch_left hheld' happlied' (by simp [Organization.agreesWith]) now'

/-- **Patches that are sent again.** After whatever changes of an empty store, let a patch that
removes no attribute be done. If it is sent again, at whatever time, and nothing has come between,
then it is answered as before, and it leaves the store as it is. On any organization at all, stored
or not, the operations change nothing when they are done again. -/
theorem patch_again (d : Directory) (first : Int64) (requests : List Request)
    (setting setting' : Setting) (now now' : Timestamp) (id : String)
    {ops : List Patch.Operation}
    (hops : ∀ o ∈ ops, ∀ key, o.kind = .remove → Patch.Target.ofPath o.path ≠ .ok (.custom key)) :
    (let s := (d.after first requests).next
      let run := (d.patch now id ops).run setting.undisturbed.environment s
      let again := (d.patch now' id ops).run setting'.undisturbed.environment run.2.next
      ∀ stored, run.1 = .ok stored → again.1 = .ok stored ∧ again.2.store = run.2.store) ∧
    ∀ o o', Patch.apply ops o = .ok o' → Patch.apply ops o' = .ok o' := by
  have hlasting : ∀ o ∈ ops, ∀ key, ¬ o.Asks (.drop key) := by
    intro o ho key hasks
    cases hasks with
    | drop hpath hkind => exact hops o ho key hkind hpath
  refine ⟨?_, fun o o' => Patch.apply_again hlasting⟩
  have htidy : d.Tidy (d.after first requests).store :=
    (after_invariant d.tidy_empty (fun _ => tidy_step) first requests).2
  have hs : (d.after first requests).next.store.Linked :=
    (after_consistent first requests).toLinked
  have hagain := @run_patch_again setting (d.after first requests).next d id ops hs
    (fun o ho => (htidy.proper o ho).trimmed) hlasting now
  rw [setting.run_still] at hagain
  dsimp only at hagain ⊢
  intro stored hdone
  have htwice := hagain hdone setting' now'
  rw [setting'.run_still] at htwice
  obtain ⟨hanswer, hleft⟩ := Prod.mk.inj htwice
  have hstore := congrArg Surroundings.store hleft
  rw [Surroundings.next_store, Surroundings.next_store] at hstore
  exact ⟨hanswer, hstore⟩

/-- Operations of which some overwrite others, and name the same attribute in other words. -/
def respelled : List Patch.Operation := [
  .replace "/name" (.string " First "),
  .replace "/name" (.string "Last"),
  .add "/attributes/a~1b" (.string "1"),
  .replace " /attributes/a~1b " (.string "2"),
  .add "/attributes/c" (.string "3"),
  .remove "/description"]

theorem patch_again_respelled :
    let s := (standard.after 1 [(Mutation.add .epoch "root" (.new .epoch "Root")).plain]).next
    let env := Setting.plain.undisturbed.environment
    let run := (standard.patch .epoch "root" respelled).run env s
    let again := (standard.patch .epoch "root" respelled).run env run.2.next
    (∀ o ∈ respelled, ∀ key, o.kind = .remove →
      Patch.Target.ofPath o.path ≠ .ok (.custom key)) ∧
      ∃ stored, run.1 = .ok stored ∧ stored.name = "Last" ∧ stored.version = 2 ∧
        stored.attributes = [⟨"a/b", "2"⟩, ⟨"c", "3"⟩] ∧
        again.1 = .ok stored ∧ again.2.store = run.2.store := by
  intro s env run again
  have hops : ∀ o ∈ respelled, ∀ key, o.kind = .remove →
      Patch.Target.ofPath o.path ≠ .ok (.custom key) := by
    intro o ho key hkind hpath
    -- only the last one removes anything, and that is the description
    obtain rfl : o = .remove "/description" := by
      simp only [respelled, List.mem_cons, List.not_mem_nil, or_false] at ho
      rcases ho with rfl | rfl | rfl | rfl | rfl | rfl
      all_goals first | rfl | cases hkind
    have hdescription : Patch.Target.ofPath "/description" = .ok .description := rfl
    rw [Patch.Operation.remove, hdescription] at hpath
    cases hpath
  refine ⟨hops, ?_⟩
  have hagain : ∀ stored, run.1 = .ok stored →
      again.1 = .ok stored ∧ again.2.store = run.2.store :=
    (patch_again standard 1 [(Mutation.add .epoch "root" (.new .epoch "Root")).plain] .plain .plain
      .epoch .epoch "root" hops).1
  -- the answer is computed as it stands, before anything is known of it
  have hread : run.1.toOption.map (fun o => (o.name, o.version, o.attributes)) =
      some ("Last", 2, [⟨"a/b", "2"⟩, ⟨"c", "3"⟩]) := by decide +kernel
  obtain ⟨stored, hsome, hfields⟩ := Option.map_eq_some_iff.1 hread
  have hstored : run.1 = .ok stored := toOption_eq_some.1 hsome
  obtain ⟨hname, hrest⟩ := Prod.mk.inj hfields
  obtain ⟨hversion, hattributes⟩ := Prod.mk.inj hrest
  exact ⟨stored, hstored, hname, hversion, hattributes, hagain stored hstored⟩

/-! ## What patches make of attributes -/

/-- **Attributes under patches.** Let no key of an organization come twice. If a list of operations
is done on it, then what identifies, places and dates the organization is as before, and no
projections are left. No key of the result comes twice either. The keys that have not been dropped
are in their old order, and before all that have been added, which are in the order of their turns;
and each key has the value that was put under it last, or its old value if none was.

If an operation cannot be done at its turn, then the whole list is refused. A directory that is to
patch its record with the list answers with a bad request, and leaves its store as it is. -/
theorem patch_arranged (ops : List Patch.Operation) {org : Organization}
    (hdistinct : org.keys.Nodup) :
    (∀ r, Patch.apply ops org = .ok r → Patch.Spared org r ∧
      (r.children = [] ∧ r.permissions = []) ∧ Patch.Arranged ops org r) ∧
    ∀ before o after mid, ops = before ++ o :: after → Patch.apply before org = .ok mid →
      ¬ o.Valid mid → ∃ fault, Patch.apply ops org = .error fault ∧
        ∀ (d : Directory) (setting : Setting) (now : Timestamp) (id : String) (s : Surroundings),
          s.store.organizations.get? id = some org →
            let run := (d.patch now id ops).run setting.undisturbed.environment s.next
            run.1 = .error (.badRequest (.patch fault)) ∧ run.2.store = s.store := by
  constructor
  · intro r hdone
    exact ⟨Patch.apply_spared hdone, Patch.apply_unprojected hdone,
      Patch.apply_arranged hdistinct hdone⟩
  · rintro before o after mid rfl hbefore hinvalid
    obtain ⟨fault, hfault⟩ : ∃ fault, Patch.apply (before ++ o :: after) org = .error fault :=
      Patch.exists_fault hbefore hinvalid
    refine ⟨fault, hfault, ?_⟩
    intro d setting now id s hheld
    have hnext : s.next.store.organizations.get? id = some org := hheld
    have hrefused : (d.patch now id (before ++ o :: after)).run setting.still s.next =
        (.error (.badRequest (.patch fault)), s.next) := run_patch_refused hnext hfault now
    obtain ⟨hanswer, hstore⟩ := setting.run_undisturbed (d.patch now id (before ++ o :: after)) s
    rw [hrefused] at hanswer hstore
    exact ⟨hanswer, hstore⟩

/-- An organization with three attributes. -/
def threefold : Organization :=
  { Organization.new .epoch "N" with attributes := [⟨"a", "1"⟩, ⟨"b", "2"⟩, ⟨"c", "3"⟩] }

/-- Operations that overwrite a key, and drop two keys and add them again. -/
def shuffled : List Patch.Operation := [
  .replace "/attributes/a" (.string "4"),
  .remove "/attributes/b",
  .add "/attributes/d" (.string "5"),
  .add "/attributes/b" (.string "6"),
  .remove "/attributes/d",
  .add "/attributes/d" (.string "7")]

/-- The keys that have been dropped come last; and one key cannot be dropped twice. -/
theorem patch_arranged_shuffled :
    threefold.keys.Nodup ∧
      (∃ r, Patch.apply shuffled threefold = .ok r ∧ r.keys = ["a", "c", "b", "d"] ∧
        Patch.Arranged shuffled threefold r) ∧
      ∃ fault, Patch.apply [.remove "/attributes/b", .remove "/attributes/b"] threefold =
        .error fault := by
  have hdistinct : threefold.keys.Nodup := by decide
  refine ⟨hdistinct, ?_, ?_⟩
  · have hdone : Patch.apply shuffled threefold = .ok { threefold with
        attributes := [⟨"a", "4"⟩, ⟨"c", "3"⟩, ⟨"b", "6"⟩, ⟨"d", "7"⟩] } := rfl
    obtain ⟨harranged, -⟩ := patch_arranged shuffled hdistinct
    exact ⟨_, hdone, rfl, (harranged _ hdone).2.2⟩
  · have hbefore : Patch.apply [.remove "/attributes/b"] threefold = .ok { threefold with
        attributes := [⟨"a", "1"⟩, ⟨"c", "3"⟩] } := rfl
    obtain ⟨-, hrefused⟩ :=
      patch_arranged [.remove "/attributes/b", .remove "/attributes/b"] hdistinct
    obtain ⟨fault, hfault, -⟩ := hrefused [_] _ [] _ rfl hbefore fun hvalid => by
      obtain ⟨r, hr⟩ := Patch.Operation.valid_iff.1 hvalid
      cases hr
    exact ⟨fault, hfault⟩

end OrgForest.Directory
