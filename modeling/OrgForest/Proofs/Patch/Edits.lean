import OrgForest.Patch.Apply
import OrgForest.Proofs.Except
import OrgForest.Proofs.Organization.Attributes

/-!
# What operations ask for

An operation is a path, a kind and perhaps a value. What it asks for can be told from these alone,
without any organization: a new name, say, or that an attribute be dropped. An organization then
either has what is to be dropped, or the operation is refused; everything else can always be done.

* `Patch.Edit`, `Patch.Operation.Asks` — what can be asked for, and by which operations;
* `Patch.Operation.apply_eq_ok` — an operation is done exactly if what it asks for can be done;
* `Patch.Operation.Valid` — operations that can be done;
* `Patch.applyAll_concat`, `Patch.applyAll_map`, `Patch.exists_fault` — lists of operations.
-/

namespace OrgForest.Patch

/-- What can be asked of an organization. -/
inductive Edit where
  | name (name : String)
  | description (description : Option String)
  | status (status : Status)
  | put (key value : String)
  | drop (key : String)

namespace Edit

/-- What an edit is about. -/
def target : Edit → Target
  | .name _ => .name
  | .description _ => .description
  | .status _ => .status
  | .put key _ => .custom key
  | .drop key => .custom key

/-- What an edit makes of an organization. -/
def on : Edit → Organization → Organization
  | .name text, org => { org with name := text }
  | .description text, org => { org with description := text }
  | .status s, org => { org with status := s }
  | .put key value, org => org.setAttribute key value
  | .drop key, org => org.removeAttribute key

/-- Whether an edit can be made: nothing is dropped that is not there. -/
def Fits : Edit → Organization → Prop
  | .drop key, org => key ∈ org.attributes.map (·.key)
  | _, _ => True

end Edit

namespace Operation

variable {o : Operation} {org org' : Organization} {t : Target} {e : Edit}

/-- What an operation asks for. -/
inductive Asks (o : Operation) : Edit → Prop where
  | name {text : String} (hpath : Target.ofPath o.path = .ok .name) (hkind : o.kind ≠ .remove)
      (hvalue : o.value = some (.string text)) (hblank : Text.trimmed text ≠ "") :
      o.Asks (.name (Text.trimmed text))
  | description {text : String} (hpath : Target.ofPath o.path = .ok .description)
      (hkind : o.kind ≠ .remove) (hvalue : o.value = some (.string text)) :
      o.Asks (.description (some text))
  | noDescription (hpath : Target.ofPath o.path = .ok .description) (hkind : o.kind = .remove) :
      o.Asks (.description none)
  | status {text : String} {status : Status} (hpath : Target.ofPath o.path = .ok .status)
      (hkind : o.kind ≠ .remove) (hvalue : o.value = some (.string text))
      (hread : Status.read text = .ok status) : o.Asks (.status status)
  | put {key text : String} (hpath : Target.ofPath o.path = .ok (.custom key))
      (hkind : o.kind ≠ .remove) (hvalue : o.value = some (.string text)) : o.Asks (.put key text)
  | drop {key : String} (hpath : Target.ofPath o.path = .ok (.custom key))
      (hkind : o.kind = .remove) : o.Asks (.drop key)

theorem Asks.target (h : o.Asks e) : Target.ofPath o.path = .ok e.target := by
  cases h with
  | name hpath => exact hpath
  | description hpath => exact hpath
  | noDescription hpath => exact hpath
  | status hpath => exact hpath
  | put hpath => exact hpath
  | drop hpath => exact hpath

theorem text_unique {text text' : String} (h : o.value = some (.string text))
    (h' : o.value = some (.string text')) : text = text' := by
  rw [h] at h'
  cases h'
  rfl

/-- Of a value only counts whether it is a text, and which. -/
theorem Asks.congr {o' : Operation} (h : o.Asks e) (hkind : o'.kind = o.kind)
    (hpath : o'.path = o.path)
    (hvalue : ∀ text, o.value = some (.string text) → o'.value = some (.string text)) :
    o'.Asks e := by
  cases h with
  | name hname hwrite htext hblank =>
    exact .name (hpath ▸ hname) (hkind ▸ hwrite) (hvalue _ htext) hblank
  | description hdescription hwrite htext =>
    exact .description (hpath ▸ hdescription) (hkind ▸ hwrite) (hvalue _ htext)
  | noDescription hdescription hremove =>
    exact .noDescription (hpath ▸ hdescription) (hkind ▸ hremove)
  | status hstatus hwrite htext hread =>
    exact .status (hpath ▸ hstatus) (hkind ▸ hwrite) (hvalue _ htext) hread
  | put hkey hwrite htext => exact .put (hpath ▸ hkey) (hkind ▸ hwrite) (hvalue _ htext)
  | drop hkey hremove => exact .drop (hpath ▸ hkey) (hkind ▸ hremove)

/-- No operation asks for two things. -/
theorem Asks.unique {e' : Edit} (h : o.Asks e) (h' : o.Asks e') : e = e' := by
  have htarget : e.target = e'.target := Except.ok.inj (h.target.symm.trans h'.target)
  -- the path decides the field, and the kind decides between the two edits that a field may have
  cases h with
  | name _ _ hvalue => cases h' with
    | name _ _ hvalue' => rw [text_unique hvalue hvalue']
    | _ => cases htarget
  | description _ hkind hvalue => cases h' with
    | description _ _ hvalue' => rw [text_unique hvalue hvalue']
    | noDescription _ hremove => exact absurd hremove hkind
    | _ => cases htarget
  | noDescription _ hremove => cases h' with
    | description _ hkind => exact absurd hremove hkind
    | noDescription => rfl
    | _ => cases htarget
  | status _ _ hvalue hread => cases h' with
    | status _ _ hvalue' hread' =>
      rw [text_unique hvalue hvalue', hread'] at hread
      rw [Except.ok.inj hread]
    | _ => cases htarget
  | put _ hkind hvalue => cases h' with
    | put _ _ hvalue' =>
      rw [text_unique hvalue hvalue', Target.custom.inj htarget]
    | drop _ hremove => exact absurd hremove hkind
    | _ => cases htarget
  | drop _ hremove => cases h' with
    | put _ hkind => exact absurd hremove hkind
    | drop => rw [Target.custom.inj htarget]
    | _ => cases htarget

/-- Whether an operation asks for an edit can be told once it is known to ask for one. -/
theorem Asks.iff {e' : Edit} (h : o.Asks e) : o.Asks e' ↔ e' = e :=
  ⟨fun h' => h'.unique h, fun heq => heq ▸ h⟩

/-! ## One operation -/

theorem textValue_eq_ok {text : String} :
    o.textValue = .ok text ↔ o.value = some (.string text) := by
  unfold textValue
  split <;> simp_all

theorem applyRemove_eq_ok (hpath : Target.ofPath o.path = .ok t) (hkind : o.kind = .remove) :
    o.applyRemove t org = .ok org' ↔ ∃ e, o.Asks e ∧ e.Fits org ∧ e.on org = org' := by
  constructor
  · intro h
    -- neither names nor statuses can be removed
    cases t with
    | name => cases h
    | status => cases h
    | description => exact ⟨_, .noDescription hpath hkind, trivial, Except.ok.inj h⟩
    | custom key =>
      unfold applyRemove at h
      cases hvalue : org.attribute? key with
      | none => simp [hvalue] at h
      | some value =>
        have hthere : key ∈ org.attributes.map (·.key) := by
          by_contra hnot
          rw [Organization.attribute?_eq_none.2 hnot] at hvalue
          cases hvalue
        simp only [hvalue, Except.ok.injEq] at h
        exact ⟨_, .drop hpath hkind, hthere, h⟩
  · rintro ⟨e, hasks, hfits, rfl⟩
    have htarget : t = e.target := Except.ok.inj (hpath.symm.trans hasks.target)
    -- only two edits are asked for by a removal
    cases hasks with
    | name _ hother => exact absurd hkind hother
    | description _ hother => exact absurd hkind hother
    | status _ hother => exact absurd hkind hother
    | put _ hother => exact absurd hkind hother
    | noDescription => exact htarget ▸ rfl
    | @drop key =>
      subst htarget
      cases hvalue : org.attribute? key with
      | none => exact absurd hfits (Organization.attribute?_eq_none.1 hvalue)
      | some value => simp [Edit.target, applyRemove, hvalue, Edit.on]

theorem applyWrite_eq_ok (hpath : Target.ofPath o.path = .ok t) (hkind : o.kind ≠ .remove) :
    o.applyWrite t org = .ok org' ↔ ∃ e, o.Asks e ∧ e.Fits org ∧ e.on org = org' := by
  rw [applyWrite, bind_eq_ok]
  simp only [textValue_eq_ok]
  constructor
  · rintro ⟨text, hvalue, h⟩
    cases t with
    | name =>
      by_cases hblank : Text.trimmed text = ""
      · simp [hblank, throw_eq_ok] at h
      · simp only [hblank, if_false, pure_eq_ok] at h
        exact ⟨_, .name hpath hkind hvalue hblank, trivial, h⟩
    | description => exact ⟨_, .description hpath hkind hvalue, trivial, pure_eq_ok.1 h⟩
    | status =>
      cases hread : Status.read text with
      | error u => simp [hread, throw_eq_ok] at h
      | ok status =>
        simp only [hread, pure_eq_ok] at h
        exact ⟨_, .status hpath hkind hvalue hread, trivial, h⟩
    | custom key => exact ⟨_, .put hpath hkind hvalue, trivial, pure_eq_ok.1 h⟩
  · rintro ⟨e, hasks, -, rfl⟩
    obtain rfl : t = e.target := Except.ok.inj (hpath.symm.trans hasks.target)
    cases hasks with
    | noDescription _ hremove => exact absurd hremove hkind
    | drop _ hremove => exact absurd hremove hkind
    | name _ _ hvalue hblank =>
      exact ⟨_, hvalue, by simp [Edit.target, hblank, pure_eq_ok, Edit.on]⟩
    | description _ _ hvalue => exact ⟨_, hvalue, rfl⟩
    | status _ _ hvalue hread =>
      exact ⟨_, hvalue, by simp [Edit.target, hread, pure_eq_ok, Edit.on]⟩
    | put _ _ hvalue => exact ⟨_, hvalue, rfl⟩

/-- An operation is done exactly if what it asks for can be done. -/
theorem apply_eq_ok :
    o.apply org = .ok org' ↔ ∃ e, o.Asks e ∧ e.Fits org ∧ e.on org = org' := by
  rw [apply, bind_eq_ok]
  constructor
  · rintro ⟨t, hpath, h⟩
    cases hkind : o.kind with
    | remove => exact (applyRemove_eq_ok hpath hkind).1 (by simpa only [hkind] using h)
    | add => exact (applyWrite_eq_ok hpath (by simp [hkind])).1 (by simpa only [hkind] using h)
    | replace => exact (applyWrite_eq_ok hpath (by simp [hkind])).1 (by simpa only [hkind] using h)
  · rintro ⟨e, hasks, hdone⟩
    refine ⟨e.target, hasks.target, ?_⟩
    have hsome : ∃ e, o.Asks e ∧ e.Fits org ∧ e.on org = org' := ⟨e, hasks, hdone⟩
    cases hkind : o.kind with
    | remove => exact (applyRemove_eq_ok hasks.target hkind).2 hsome
    | add => exact (applyWrite_eq_ok hasks.target (by simp [hkind])).2 hsome
    | replace => exact (applyWrite_eq_ok hasks.target (by simp [hkind])).2 hsome

/-- Whether an operation can be done on an organization. -/
def Valid (o : Operation) (org : Organization) : Prop := ∃ e, o.Asks e ∧ e.Fits org

theorem valid_iff : o.Valid org ↔ ∃ org', o.apply org = .ok org' := by
  simp only [apply_eq_ok]
  constructor
  · rintro ⟨e, hasks, hfits⟩
    exact ⟨_, e, hasks, hfits, rfl⟩
  · rintro ⟨org', e, hasks, hfits, -⟩
    exact ⟨e, hasks, hfits⟩

end Operation

/-! ## Lists of operations -/

variable {ops : List Operation} {o : Operation} {org org' : Organization}

theorem applyAll_append (ops ops' : List Operation) (org : Organization) :
    applyAll (ops ++ ops') org = applyAll ops org >>= applyAll ops' := by
  induction ops generalizing org with
  | nil => rfl
  | cons o ops ih =>
    rw [List.cons_append, applyAll, applyAll]
    cases o.apply org with
    | error e => rfl
    | ok next => exact ih next

theorem applyAll_singleton (o : Operation) (org : Organization) :
    applyAll [o] org = o.apply org := by
  rw [applyAll]
  cases o.apply org <;> rfl

/-- A list of operations is done exactly if all but the last are done, and then the last. -/
theorem applyAll_concat : applyAll (ops ++ [o]) org = .ok org' ↔
    ∃ mid, applyAll ops org = .ok mid ∧ ∃ e, o.Asks e ∧ e.Fits mid ∧ e.on mid = org' := by
  simp only [applyAll_append, bind_eq_ok, applyAll_singleton, Operation.apply_eq_ok]

theorem applyAll_cons : applyAll (o :: ops) org = .ok org' ↔
    ∃ mid, o.apply org = .ok mid ∧ applyAll ops mid = .ok org' := by
  rw [applyAll]
  cases o.apply org <;> simp

/-- What counts of operations is what they ask for. -/
theorem applyAll_map {f : Operation → Operation} (hasks : ∀ o e, (f o).Asks e ↔ o.Asks e) :
    applyAll (ops.map f) org = .ok org' ↔ applyAll ops org = .ok org' := by
  induction ops generalizing org with
  | nil => rfl
  | cons o ops ih =>
    simp only [List.map_cons, applyAll_cons, Operation.apply_eq_ok, hasks, ih]

/-- What cannot be done at its turn refuses the whole list. -/
theorem exists_fault {before after : List Operation} {mid : Organization}
    (hbefore : apply before org = .ok mid) (hinvalid : ¬ o.Valid mid) :
    ∃ fault, apply (before ++ o :: after) org = .error fault := by
  cases hrun : apply (before ++ o :: after) org with
  | error fault => exact ⟨fault, rfl⟩
  | ok r =>
    rw [apply, applyAll_append, bind_eq_ok] at hrun
    obtain ⟨mid', hmid', hrest⟩ := hrun
    obtain rfl : mid = mid' := Except.ok.inj (hbefore.symm.trans hmid')
    -- the operations before this one are done in either case, so its turn comes
    rw [applyAll] at hrest
    cases hturn : o.apply mid with
    | error e => simp [hturn] at hrest
    | ok next => exact absurd (Operation.valid_iff.2 ⟨next, hturn⟩) hinvalid

end OrgForest.Patch
