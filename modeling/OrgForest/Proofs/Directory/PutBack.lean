import OrgForest.Directory.Lookup
import OrgForest.Proofs.Directory.History

/-!
# Reading and putting back

Names and attributes come into a directory in three ways, and each of them checks something else: an
addition and an update check the name and the keys that they are given, a patch checks a name only
where it is new, and keys not at all. What they store is the same kind of record all the same. So no
record is such that a caller who has read it could not put it back: the update takes all that it is
given, finds that nothing has changed, and writes nothing.

* `Directory.Tidy`, `Directory.tidy_step` — all records are as records are stored, after every step;
* `Directory.assures_shown` — what a reader is shown is the record, but for the projections;
* `Directory.run_update_same` — an update that changes nothing;
* `Directory.records_put_back` — what has been read can be put back.
-/

namespace OrgForest.Directory

variable {d : Directory} {s s' : Store}

/-! ## Records as they are stored -/

/-- Every record is a proper one, and has no projections. -/
structure Tidy (d : Directory) (s : Store) : Prop where
  proper : ∀ o, s.Holds o → d.Proper o
  bare : ∀ o, s.Holds o → o.bare = o

theorem tidy_empty (d : Directory) : d.Tidy .empty where
  proper o ho := by simp [Store.Holds, Store.empty] at ho
  bare o ho := by simp [Store.Holds, Store.empty] at ho

theorem Tidy.written (h : d.Tidy s) {o : Organization}
    (hwritten : s'.organizations = s.organizations.insert o.id o) (hproper : d.Proper o)
    (hbare : o.bare = o) : d.Tidy s' := by
  constructor
  · intro q hq
    rcases (Store.holds_of_written hwritten).1 hq with rfl | ⟨-, hq⟩
    · exact hproper
    · exact h.proper q hq
  · intro q hq
    rcases (Store.holds_of_written hwritten).1 hq with rfl | ⟨-, hq⟩
    · exact hbare
    · exact h.bare q hq

/-- Whichever change writes a record, it writes a proper one. -/
theorem tidy_step (hstep : d.Step s s') (h : d.Tidy s) : d.Tidy s' := by
  cases hstep with
  | idle heq => exact heq ▸ h
  | added o ho hwritten hbare => exact h.written hwritten ho.proper hbare
  | edited old new he hwritten hbare =>
    exact h.written hwritten (he.proper (h.proper old he.held)) hbare
  | erased id hleaf herased =>
    have hheld {o : Organization} (ho : s'.Holds o) : s.Holds o :=
      ((Store.get?_of_erased herased).1 ho).2
    exact ⟨fun o ho => h.proper o (hheld ho), fun o ho => h.bare o (hheld ho)⟩

/-! ## Reading -/

variable {setting : Setting} {t : Surroundings} {id : String}

/-- What a reader is shown of an organization is its record, but for the projections. -/
theorem assures_shown (id : String) (options : View) :
    (get id options).Assures setting t fun o =>
      ∃ current, t.store.organizations.get? id = some current ∧ o.bare = current.bare := by
  refine (assures_load id).bind fun current hcurrent => ?_
  -- the permissions, once the children are there or have not been asked for
  have hrest {o : Organization} (ho : o.bare = current.bare) : (do
      if options.permissions then return { o with permissions := ← Action.permissions id }
      else return o : Action Organization).Assures setting t fun o =>
        ∃ current, t.store.organizations.get? id = some current ∧ o.bare = current.bare := by
    split
    · have hresolve : (Action.permissions id).ReadOnly := .permissions fun _ => .done _
      exact hresolve.assures.bind fun _ _ => .pure ⟨current, hcurrent, ho⟩
    · exact .pure ⟨current, hcurrent, ho⟩
  dsimp only
  split
  · have hchildren : (Action.call (.children id)).ReadOnly := Action.readOnly_call rfl
    exact hchildren.assures.bind fun _ _ => hrest rfl
  · exact hrest rfl

/-! ## Putting back -/

/-- An update that gives for an organization what is stored for it goes through all checks and
writes nothing. -/
theorem run_update_same {current o : Organization} (now : Timestamp)
    (hcurrent : t.store.organizations.get? id = some current) (hproper : d.Proper current)
    (hsame : o.bare = current.bare) :
    (d.update now id o.name o).run setting.still t = (.ok current, t) := by
  have hname : o.name = current.name := congrArg (·.name) hsame
  have hdescription : o.description = current.description := congrArg (·.description) hsame
  have hstatus : o.status = current.status := congrArg (·.status) hsame
  have hattributes : o.attributes = current.attributes := congrArg (·.attributes) hsame
  have hparent : o.parentId = current.parentId := congrArg (·.parentId) hsame
  have hload : (load id).run setting.still t = (.ok current, t) := by
    rw [run_load, hcurrent]
  have hvalid : validAttributes current.attributes = .ok () :=
    validAttributes_eq_ok.2 hproper.keyed
  rw [update, hname, hdescription, hstatus, hattributes, hparent, hproper.validName, hvalid]
  simp only [Action.check, pure_bind]
  rw [Action.run_bind, hload]
  dsimp only
  -- the caller knows the name, nothing moves, and nothing is new
  rw [if_neg (by simp [hproper.trimmed]), if_neg (by simp),
    if_pos (by simp [Organization.agreesWith])]
  rfl

/-- **What has been read can be put back.** After whatever changes of an empty store, whichever of
them wrote a record: its name is trimmed, not blank and not too long, and the keys of its attributes
are distinct and not blank. So if an organization is read, with or without its projections, then an
update with just that, under the name that it shows, answers with the record as it is stored,
without projections, and leaves all tables and the structure version as they were. -/
theorem records_put_back (d : Directory) (first : Int64) (requests : List Request) :
    let s := d.after first requests
    d.Tidy s.store ∧
      ∀ (reading writing : Setting) (id : String) (options : View) (o : Organization)
        (t : Surroundings),
        (get id options).run reading.undisturbed.environment s.next = (.ok o, t) →
        s.store.organizations.get? id = some o.bare ∧ t.store = s.store ∧
          ∀ now, let put := (d.update now id o.name o).run writing.undisturbed.environment t.next
            put.1 = .ok o.bare ∧ put.2.store = s.store := by
  intro s
  have htidy : d.Tidy s.store :=
    (after_invariant d.tidy_empty (fun _ => tidy_step) first requests).2
  have hs : s.store.Consistent := after_consistent first requests
  refine ⟨htidy, fun reading writing id options o t hrun => ?_⟩
  -- reading changes nothing, and what it shows is the record
  obtain ⟨hstill, hshown⟩ : (get id options).Assures reading s.next _ := assures_shown id options
  have hread := reading.run_still (get id options) s
  rw [hrun] at hread
  rw [hread] at hstill hshown
  have hnext : t.next.store = s.next.store := congrArg Surroundings.store hstill
  have hstore : t.store = s.store := hnext
  obtain ⟨current, hcurrent, hsame⟩ := hshown o rfl
  have hheld : s.store.Holds current := hs.get?_own hcurrent
  obtain rfl : o.bare = current := hsame.trans (htidy.bare current hheld)
  refine ⟨hcurrent, hstore, fun now => ?_⟩
  have hput : (d.update now id o.name o).run writing.still t.next = (.ok o.bare, t.next) :=
    run_update_same now (hstore ▸ hcurrent) (htidy.proper _ hheld) rfl
  dsimp only
  rw [(writing.run_undisturbed _ t).1, (writing.run_undisturbed _ t).2, hput]
  exact ⟨rfl, hstore⟩

/-- A root with a child, whose name has come in with blanks and one of whose keys with an escape. -/
def patched : List Request := List.map Mutation.plain [
  .add .epoch "root" { Organization.new .epoch " Root " with attributes := [⟨"unit", "1"⟩] },
  .add .epoch "leaf" { Organization.new .epoch "Leaf" with parentId := some "root" },
  .patch .epoch "root" [
    .add " /attributes/a~1b " (.string "2"),
    .replace "/name" (.string " Top ")]]

theorem records_put_back_patched :
    let s := standard.after 1 patched
    let reader : Setting := { Setting.plain with permissions := fun _ => .ok ["READ"] }
    let env := reader.undisturbed.environment
    let read := (get "root" ⟨true, true⟩).run env s.next
    ∃ o, read.1 = .ok o ∧ o.name = "Top" ∧ o.attributes = [⟨"unit", "1"⟩, ⟨"a/b", "2"⟩] ∧
      o.children.length = 1 ∧ o.permissions = ["READ"] ∧
      ∀ now, let put := (standard.update now "root" o.name o).run env read.2.next
        put.1 = .ok o.bare ∧ put.2.store = s.store := by
  intro s reader env read
  have hshown : (match read.1 with
      | .ok o => decide (o.name = "Top" ∧ o.attributes = [⟨"unit", "1"⟩, ⟨"a/b", "2"⟩] ∧
          o.children.length = 1 ∧ o.permissions = ["READ"])
      | .error _ => false) = true := by decide +kernel
  rcases hread : read with ⟨e | o, t⟩
  · rw [hread] at hshown
    cases hshown
  · rw [hread] at hshown
    obtain ⟨hname, hattributes, hchildren, hpermissions⟩ := of_decide_eq_true hshown
    have hput := (records_put_back standard 1 patched).2 reader reader "root" ⟨true, true⟩ o t hread
    refine ⟨o, rfl, hname, hattributes, hchildren, hpermissions, fun now => ?_⟩
    dsimp only [env]
    exact hput.2.2 now

end OrgForest.Directory
