import Mathlib.Data.List.Induction
import OrgForest.Proofs.Patch.Spared

/-!
# Patches that are sent again

A patch that removes no attribute says what an organization is to be like, not how it is to change,
so it has nothing left to do once it has been done. That it may write one field several times makes
no difference: all but the last of these writes may be left out. Nor does the order of attributes,
which come in the order of their first writes and have their places when the patch comes again.

* `Patch.Edit.on_on_of_target`, `Patch.Edit.on_comm` — two edits, of one field or of two;
* `Patch.onAll_onAll` — edits that are made again;
* `Patch.apply_again`, `Patch.apply_stamped` — patches that are sent again, also when the patched
  organization has been dated and counted.
-/

namespace OrgForest.Patch

variable {org org' : Organization} {key : String}

/-! ## Two edits -/

namespace Edit

variable {e e' : Edit}

/-- An edit that drops nothing. -/
def Lasting (e : Edit) : Prop := ∀ key, e ≠ .drop key

/-- Whether what an edit puts has its place already. -/
def Placed : Edit → Organization → Prop
  | .put key _, org => key ∈ org.attributes.map (·.key)
  | _, _ => True

theorem mem_keys_put {key' : String} (value : String) {as : List Attribute}
    (hkey : key ∈ as.map (·.key)) :
    key ∈ (Organization.putAttribute key' value as).map (·.key) := by
  rw [Organization.keys_putAttribute]
  split
  · exact hkey
  · exact List.mem_append_left _ hkey

/-- A place stays, whatever lasting edit is made. -/
theorem Placed.on (hplaced : e.Placed org) (hlasting : e'.Lasting) : e.Placed (e'.on org) := by
  cases e with
  | put key value =>
    cases e' with
    | put key' value' => exact mem_keys_put value' hplaced
    | drop key' => exact absurd rfl (hlasting key')
    | name | description | status => exact hplaced
  | name | description | status | drop => trivial

/-- A lasting edit makes its own place. -/
theorem placed_on_self (e : Edit) (org : Organization) : e.Placed (e.on org) := by
  cases e with
  | put key value =>
    show key ∈ (Organization.putAttribute key value org.attributes).map (·.key)
    rw [Organization.keys_putAttribute]
    split
    · assumption
    · exact List.mem_append_right _ (List.mem_singleton_self key)
  | name | description | status | drop => trivial

/-- Of two lasting edits of one field the last one stays. -/
theorem on_on_of_target (hlasting : e.Lasting) (hlasting' : e'.Lasting)
    (htarget : e.target = e'.target) (org : Organization) : e.on (e'.on org) = e.on org := by
  -- both are of one kind, and only attributes need more than looking
  cases e with
  | name => cases e' with
    | name => rfl
    | _ => cases htarget
  | description => cases e' with
    | description => rfl
    | _ => cases htarget
  | status => cases e' with
    | status => rfl
    | _ => cases htarget
  | put key value => cases e' with
    | put key' value' =>
      obtain rfl : key = key' := Target.custom.inj htarget
      have hput := Organization.putAttribute_putAttribute key value value' org.attributes
      exact congrArg (fun as => { org with attributes := as }) hput
    | drop key' => exact absurd rfl (hlasting' key')
    | name | description | status => cases htarget
  | drop key => exact absurd rfl (hlasting key)

/-- Two lasting edits of different fields may be made in either order, if the first has its place:
otherwise both might be new attributes. -/
theorem on_comm (hlasting : e.Lasting) (hlasting' : e'.Lasting) (htarget : e.target ≠ e'.target)
    (hplaced : e.Placed org) : e.on (e'.on org) = e'.on (e.on org) := by
  -- two kinds of edits write two fields of the record; two keys share one
  cases e with
  | drop key => exact absurd rfl (hlasting key)
  | put key value => cases e' with
    | put key' value' =>
      have hne : key ≠ key' := fun heq => htarget (heq ▸ rfl)
      exact congrArg (fun as => { org with attributes := as })
        (Organization.putAttribute_comm hne hplaced)
    | drop key' => exact absurd rfl (hlasting' key')
    | name | description | status => rfl
  | name => cases e' with
    | drop key' => exact absurd rfl (hlasting' key')
    | name => exact absurd rfl htarget
    | description | status | put => rfl
  | description => cases e' with
    | drop key' => exact absurd rfl (hlasting' key')
    | description => exact absurd rfl htarget
    | name | status | put => rfl
  | status => cases e' with
    | drop key' => exact absurd rfl (hlasting' key')
    | status => exact absurd rfl htarget
    | name | description | put => rfl

end Edit

/-! ## Lists of edits -/

/-- What edits make of an organization, one after the other. -/
def onAll (es : List Edit) (org : Organization) : Organization :=
  es.foldl (fun org e => e.on org) org

variable {es : List Edit} {e : Edit}

theorem onAll_cons (e : Edit) (es : List Edit) (org : Organization) :
    onAll (e :: es) org = onAll es (e.on org) := rfl

theorem onAll_concat (es : List Edit) (e : Edit) (org : Organization) :
    onAll (es ++ [e]) org = e.on (onAll es org) := by
  rw [onAll, List.foldl_append]
  rfl

theorem Edit.Placed.onAll (hes : ∀ e ∈ es, e.Lasting) (hplaced : e.Placed org) :
    e.Placed (onAll es org) := by
  -- edit by edit, each of which leaves the place
  induction es generalizing org with
  | nil => exact hplaced
  | cons first es ih =>
    obtain ⟨hfirst, hes⟩ := List.forall_mem_cons.1 hes
    exact ih hes (hplaced.on hfirst)

/-- Once lasting edits have been made, all that they put has its place. -/
theorem placed_onAll (hes : ∀ e ∈ es, e.Lasting) (org : Organization) :
    ∀ e ∈ es, e.Placed (onAll es org) := by
  induction es generalizing org with
  | nil => exact fun e he => absurd he List.not_mem_nil
  | cons first es ih =>
    obtain ⟨-, hrest⟩ := List.forall_mem_cons.1 hes
    have hfirst : first.Placed (onAll es (first.on org)) :=
      (first.placed_on_self org).onAll hrest
    exact List.forall_mem_cons.2 ⟨hfirst, ih hrest _⟩

/-- An edit that comes again may be left out where it came before. -/
theorem on_onAll_on (hes : ∀ e ∈ es, e.Lasting) (he : e.Lasting)
    (hplaced : ∀ e ∈ es, e.Placed org) : e.on (onAll es (e.on org)) = e.on (onAll es org) := by
  -- the first edit goes past the others until one of them overwrites it, or it meets itself
  induction es generalizing org with
  | nil => exact Edit.on_on_of_target he he rfl org
  | cons first es ih =>
    obtain ⟨hfirst, hrest⟩ := List.forall_mem_cons.1 hes
    obtain ⟨hplace, hplaces⟩ := List.forall_mem_cons.1 hplaced
    rw [onAll_cons, onAll_cons]
    by_cases htarget : first.target = e.target
    · rw [Edit.on_on_of_target hfirst he htarget]
    · rw [Edit.on_comm hfirst he htarget hplace]
      exact ih hrest fun e' he' => (hplaces e' he').on hfirst

/-- Lasting edits that are made again change nothing. -/
theorem onAll_onAll (hes : ∀ e ∈ es, e.Lasting) (org : Organization) :
    onAll es (onAll es org) = onAll es org := by
  -- from the last edit on, which may be left out the first time
  induction es using List.reverseRecOn with
  | nil => rfl
  | append_singleton es e ih =>
    have hes' : ∀ e ∈ es, e.Lasting := fun e' he' => hes e' (List.mem_append_left _ he')
    have he : e.Lasting := hes e (List.mem_append_right _ (List.mem_singleton_self e))
    calc onAll (es ++ [e]) (onAll (es ++ [e]) org)
        = e.on (onAll es (e.on (onAll es org))) := by rw [onAll_concat, onAll_concat]
      _ = e.on (onAll es (onAll es org)) := on_onAll_on hes' he (placed_onAll hes' org)
      _ = onAll (es ++ [e]) org := by rw [ih hes', onAll_concat]

theorem bare_onAll (es : List Edit) (org : Organization) :
    (onAll es org).bare = onAll es org.bare := by
  induction es generalizing org with
  | nil => rfl
  | cons e es ih =>
    have hfirst : (e.on org).bare = e.on org.bare := by cases e <;> rfl
    rw [onAll_cons, ih, hfirst, onAll_cons]

/-! ## Patches -/

variable {ops : List Operation}

/-- Operations that are done once and drop no attribute are a list of edits, the same one for all
organizations. -/
theorem exists_edits (hops : ∀ o ∈ ops, ∀ key, ¬ o.Asks (.drop key))
    (h : applyAll ops org = .ok org') :
    ∃ es, (∀ e ∈ es, e.Lasting) ∧ onAll es org = org' ∧
      ∀ other, applyAll ops other = .ok (onAll es other) := by
  induction ops generalizing org with
  | nil => exact ⟨[], by simp, Except.ok.inj h, fun _ => rfl⟩
  | cons o ops ih =>
    obtain ⟨ho, hops⟩ := List.forall_mem_cons.1 hops
    rw [applyAll] at h
    cases hfirst : o.apply org with
    | error fault => simp [hfirst] at h
    | ok next =>
      rw [hfirst] at h
      obtain ⟨e, hasks, -, rfl⟩ := Operation.apply_eq_ok.1 hfirst
      obtain ⟨es, hes, hdone, hany⟩ := ih hops h
      -- whether the operation can be done might only depend on a key that is dropped
      have he : e.Lasting := by
        rintro key rfl
        exact ho key hasks
      have hfits (other : Organization) : e.Fits other := by
        cases e with
        | drop key => exact absurd rfl (he key)
        | name | description | status | put => trivial
      refine ⟨e :: es, List.forall_mem_cons.2 ⟨he, hes⟩, hdone, fun other => ?_⟩
      have hturn : o.apply other = .ok (e.on other) :=
        Operation.apply_eq_ok.2 ⟨e, hasks, hfits other, rfl⟩
      rw [applyAll, hturn]
      exact hany _

/-- A patch that drops no attribute changes nothing when it is sent again. -/
theorem apply_again (hops : ∀ o ∈ ops, ∀ key, ¬ o.Asks (.drop key))
    (h : apply ops org = .ok org') : apply ops org' = .ok org' := by
  obtain ⟨es, hes, rfl, hany⟩ := exists_edits hops h
  have hbare : (onAll es org.bare).bare = onAll es org.bare := bare_onAll es org.bare
  rw [apply, hbare, hany, onAll_onAll hes]

/-! ## Dates and counts -/

/-- The organization as if it had been written at another time, and another number of times. -/
def stamped (now : Timestamp) (version : UInt64) (org : Organization) : Organization :=
  { org with lastModified := now, version }

theorem Operation.apply_stamped {o : Operation} (now : Timestamp) (version : UInt64)
    (h : o.apply org = .ok org') :
    o.apply (stamped now version org) = .ok (stamped now version org') := by
  obtain ⟨e, hasks, hfits, rfl⟩ := apply_eq_ok.1 h
  have hsame : e.on (stamped now version org) = stamped now version (e.on org) := by
    cases e <;> rfl
  have hfits' : e.Fits (stamped now version org) := by
    cases e with
    | drop key => exact hfits
    | name | description | status | put => trivial
  exact apply_eq_ok.2 ⟨e, hasks, hfits', hsame⟩

theorem applyAll_stamped (now : Timestamp) (version : UInt64) (h : applyAll ops org = .ok org') :
    applyAll ops (stamped now version org) = .ok (stamped now version org') := by
  -- operation by operation, each on the stamped result of those before it
  induction ops generalizing org with
  | nil => exact Except.ok.inj h ▸ rfl
  | cons o ops ih =>
    rw [applyAll] at h
    cases hfirst : o.apply org with
    | error fault => simp [hfirst] at h
    | ok next =>
      rw [hfirst] at h
      rw [applyAll, Operation.apply_stamped now version hfirst]
      exact ih h

/-- A patch does not look at what dates and counts an organization. -/
theorem apply_stamped (now : Timestamp) (version : UInt64) (h : apply ops org = .ok org') :
    apply ops (stamped now version org) = .ok (stamped now version org') :=
  applyAll_stamped now version h

/-- A patch leaves the name as it is, or gives it without blanks around it. -/
theorem apply_trimmed (h : apply ops org = .ok org') :
    org'.name = org.name ∨ Text.trimmed org'.name = org'.name := by
  refine applyAll_invariant (I := fun o => o.name = org.name ∨ Text.trimmed o.name = o.name) ?_ h
    (.inl rfl)
  intro o before after hdone hname
  cases hdone with
  | name _ htrimmed => exact .inr htrimmed
  | description | status | put | drop => exact hname

end OrgForest.Patch
