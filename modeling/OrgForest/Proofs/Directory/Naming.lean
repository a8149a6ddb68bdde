import OrgForest.Directory.Lookup
import OrgForest.Proofs.Directory.History
import OrgForest.Proofs.Directory.Lineages

/-!
# Names

Where two organizations have to differ in their names depends on the directory: everywhere, or if
they stand in one hierarchy or are both roots. Hierarchies are told apart by their roots, and as no
edit takes an organization to another one, only a new name can meet one that is in use.

A name is stored trimmed and looked up trimmed, so in a hierarchy it leads to one organization at
most, whatever blanks are put around it.

* `Store.Rivals`, `Store.WellNamed` — whose names must differ, and that they do;
* `Directory.wellNamed_step` — no step breaks it;
* `Directory.run_idsByName` — the organizations that a name stands for;
* `Directory.names_after` — unique names and certain look-ups after every history.
-/

namespace OrgForest

namespace Store

/-- Two records whose names must differ. -/
def Rivals (s : Store) (scope : NameScope) (o p : Organization) : Prop :=
  match scope with
  | .global => True
  | .hierarchy => o.isRoot = true ∧ p.isRoot = true ∨
      ∃ root, s.InHierarchy root o.id ∧ s.InHierarchy root p.id

/-- No two rivals have the same name. -/
def NamesUnique (s : Store) (scope : NameScope) : Prop :=
  ∀ o p, s.Holds o → s.Holds p → o.name = p.name → s.Rivals scope o p → o = p

/-- Names are stored without blanks around them, and are unique. -/
structure WellNamed (s : Store) (scope : NameScope) : Prop where
  trimmed : ∀ o, s.Holds o → Text.trimmed o.name = o.name
  unique : s.NamesUnique scope

variable {s s' : Store} {scope : NameScope} {o p : Organization}

theorem Rivals.symm (h : s.Rivals scope o p) : s.Rivals scope p o := by
  cases scope with
  | global => exact trivial
  | hierarchy =>
    rcases h with ⟨ho, hp⟩ | ⟨root, ho, hp⟩
    · exact .inl ⟨hp, ho⟩
    · exact .inr ⟨root, hp, ho⟩

/-- Records that are rivals elsewhere are so here, if they stand here in the same hierarchies. -/
theorem Rivals.imp {o' p' : Organization} (h : s'.Rivals scope o p)
    (ho : o'.isRoot = o.isRoot ∧ ∀ root, s'.InHierarchy root o.id → s.InHierarchy root o'.id)
    (hp : p'.isRoot = p.isRoot ∧ ∀ root, s'.InHierarchy root p.id → s.InHierarchy root p'.id) :
    s.Rivals scope o' p' := by
  cases scope with
  | global => exact trivial
  | hierarchy =>
    rcases h with hroots | ⟨root, hino, hinp⟩
    · exact .inl (by rwa [ho.1, hp.1])
    · exact .inr ⟨root, ho.2 root hino, hp.2 root hinp⟩

/-- Rivals of a record are what its name may clash with. -/
theorem Rivals.clashes {root : String} (h : s.Rivals scope o p) (ho : s.InHierarchy root o.id) :
    Directory.Clashes scope s (some root) o.isRoot p := by
  cases scope with
  | global => exact trivial
  | hierarchy =>
    rcases h with hroots | ⟨root', hino, hinp⟩
    · exact .inl hroots
    · exact .inr ⟨root', by rw [ho.unique hino], hinp⟩

/-- A record may be written if its name is trimmed and not that of a rival. -/
theorem WellNamed.written (h : s.WellNamed scope)
    (hwritten : s'.organizations = s.organizations.insert o.id o)
    (htrimmed : Text.trimmed o.name = o.name)
    (hroots : ∀ root x, x ≠ o.id → s'.InHierarchy root x → s.InHierarchy root x)
    (hfree : ∀ p, s.Holds p → p.id ≠ o.id → o.name = p.name → ¬ s'.Rivals scope o p) :
    s'.WellNamed scope := by
  refine ⟨fun q hq => ?_, fun q r hq hr hname hrivals => ?_⟩
  · rcases (holds_of_written hwritten).1 hq with rfl | ⟨-, hq⟩
    · exact htrimmed
    · exact h.trimmed q hq
  · -- either of the two may be the record that is written
    rcases (holds_of_written hwritten).1 hq with rfl | ⟨hqne, hq⟩ <;>
      rcases (holds_of_written hwritten).1 hr with rfl | ⟨hrne, hr⟩
    · rfl
    · exact absurd hrivals (hfree r hr hrne hname)
    · exact absurd hrivals.symm (hfree q hq hqne hname.symm)
    · -- both were there before, and were rivals then
      exact h.unique q r hq hr hname <| hrivals.imp ⟨rfl, fun root => hroots root q.id hqne⟩
        ⟨rfl, fun root => hroots root r.id hrne⟩

end Store

namespace Directory

variable {d : Directory} {s s' : Store}

/-! ## Names under the steps -/

theorem inHierarchy_of_added {o : Organization} (ho : d.Newcomer s o) (hs : s.Linked)
    (hwritten : s'.organizations = s.organizations.insert o.id o) {root x : String}
    (hne : x ≠ o.id) (hx : s'.InHierarchy root x) : s.InHierarchy root x := by
  obtain ⟨c, hc, hroot⟩ := hx
  rcases ho.lineage hs hwritten hc with ⟨-, hc⟩ | ⟨heq, -⟩
  · exact ⟨c, hc, hroot⟩
  · exact absurd heq hne

/-- A new record has no rival of its name: the check has asked for the hierarchy that the record is
in now. -/
theorem not_rivals_added {o p : Organization} (ho : d.Newcomer s o) (hs : s.Linked)
    (hwritten : s'.organizations = s.organizations.insert o.id o) (hp : s.Holds p)
    (hne : p.id ≠ o.id) (hname : o.name = p.name) : ¬ s'.Rivals d.config.nameScope o p := by
  intro hrivals
  -- a new root has a hierarchy to itself, any other record comes into that of its parent
  cases hparent : o.parentId with
  | none =>
    refine ho.atTop hparent p hp hname.symm (by simp) ?_
    cases hscope : d.config.nameScope with
    | global => exact trivial
    | hierarchy =>
      rw [hscope] at hrivals
      rcases hrivals with ⟨-, hroot⟩ | ⟨root, ⟨c, hc, hhead⟩, hin⟩
      · exact .inl ⟨rfl, hroot⟩
      · -- nothing stood in the hierarchy of the new root before
        rw [hc.unique (Store.lineage_of_root hwritten hparent)] at hhead
        obtain rfl : o.id = root := Option.some.inj hhead
        obtain ⟨c', hc', hhead'⟩ := inHierarchy_of_added ho hs hwritten hne hin
        exact absurd (List.mem_of_head? hhead') (Store.not_mem_of_new hc' ho.fresh)
  | some q =>
    obtain ⟨r, hhosts, hfree⟩ := ho.below q hparent
    refine hfree p hp hname.symm (by simp) ?_
    cases hscope : d.config.nameScope with
    | global => exact trivial
    | hierarchy =>
      rw [hscope] at hrivals
      rcases hrivals with ⟨hroot, -⟩ | ⟨root, ⟨c, hc, hhead⟩, hin⟩
      · simp [Organization.isRoot, hparent] at hroot
      · obtain ⟨chain, hchain, hhead', -⟩ := hhosts.placed
        have hapart := Store.not_mem_of_new hchain ho.fresh
        rw [hc.unique (Store.lineage_of_child hwritten hparent hchain hapart), List.head?_append,
          hhead'] at hhead
        obtain rfl : r = root := Option.some.inj hhead
        exact .inr ⟨r, rfl, inHierarchy_of_added ho hs hwritten hne hin⟩

theorem wellNamed_added {o : Organization} (ho : d.Newcomer s o) (hs : s.Linked)
    (h : s.WellNamed d.config.nameScope)
    (hwritten : s'.organizations = s.organizations.insert o.id o) :
    s'.WellNamed d.config.nameScope :=
  h.written hwritten ho.proper.trimmed
    (fun _ _ hne hx => inHierarchy_of_added ho hs hwritten hne hx)
    fun _ hp hne hname => not_rivals_added ho hs hwritten hp hne hname

theorem wellNamed_edited {old new : Organization} (he : d.Edit s old new) (hs : s.Linked)
    (h : s.WellNamed d.config.nameScope)
    (hwritten : s'.organizations = s.organizations.insert new.id new) :
    s'.WellNamed d.config.nameScope := by
  have hroots (root x) (hx : s'.InHierarchy root x) := he.inHierarchy hs hwritten hx
  have htrimmed : Text.trimmed new.name = new.name := by
    rcases he.renamed with hkept | ⟨htrimmed, -⟩
    · rw [hkept, h.trimmed old he.held]
    · exact htrimmed
  refine h.written hwritten htrimmed (fun root x _ hx => hroots root x hx)
    fun p hp hne hname hrivals => ?_
  -- the rivals of the record are those that it had before
  have hbefore : s.Rivals d.config.nameScope old p :=
    hrivals.imp ⟨he.isRoot.symm, fun root hin => he.same ▸ hroots root _ hin⟩
      ⟨rfl, fun root hin => hroots root _ hin⟩
  rw [he.same] at hne
  rcases he.renamed with hkept | ⟨-, root, hroot, hfree⟩
  · -- an old name had no rival before
    exact hne (h.unique old p he.held hp (hkept ▸ hname) hbefore ▸ rfl)
  · exact hfree p hp hname.symm (by simpa using hne) (hbefore.clashes hroot)

/-- No step brings two rivals of one name. -/
theorem wellNamed_step (hs : s.Consistent) (hstep : d.Step s s')
    (h : s.WellNamed d.config.nameScope) : s'.WellNamed d.config.nameScope := by
  cases hstep with
  | idle heq => exact heq ▸ h
  | added o ho hwritten => exact wellNamed_added ho hs.toLinked h hwritten
  | edited old new he hwritten => exact wellNamed_edited he hs.toLinked h hwritten
  | erased id hleaf herased =>
    have hheld {o : Organization} (ho : s'.Holds o) : s.Holds o :=
      ((Store.get?_of_erased herased).1 ho).2
    have hroots (root : String) (x : String) : s'.InHierarchy root x → s.InHierarchy root x :=
      fun ⟨c, hc, hroot⟩ => ⟨c, Store.lineage_before_erased herased hc, hroot⟩
    refine ⟨fun o ho => h.trimmed o (hheld ho), fun o p ho hp hname hrivals => ?_⟩
    exact h.unique o p (hheld ho) (hheld hp) hname <|
      hrivals.imp ⟨rfl, fun root => hroots root _⟩ ⟨rfl, fun root => hroots root _⟩

/-! ## Look-ups by name -/

variable {setting : Setting} {t : Surroundings}

theorem run_scopeRoot {caller : Caller} {acting root : String}
    (hacting : caller.acting = some acting) (hroot : t.store.InHierarchy root acting) :
    (d.scopeRoot caller).run setting.still t = (.ok (some root), t) := by
  rw [scopeRoot, hacting]
  dsimp only
  rw [Action.run_bind, run_rootOf hroot]
  rfl

/-- Among some records those of the hierarchy are picked, in their order. -/
theorem run_idsWithin (h : t.store.Linked) (root : String) {os : List Organization}
    (hos : ∀ o ∈ os, t.store.Holds o) :
    ∃ here : List Organization,
      (d.idsWithin root os).run setting.still t = (.ok (here.map (·.id)), t) ∧
        here.Sublist os ∧ ∀ o, o ∈ here ↔ o ∈ os ∧ t.store.InHierarchy root o.id := by
  -- record by record, each with a walk up to its root
  induction os with
  | nil => exact ⟨[], rfl, .refl _, by simp⟩
  | cons o os ih =>
    obtain ⟨here, hrun, hsub, hmem⟩ := ih fun x hx => hos x (List.mem_cons_of_mem _ hx)
    obtain ⟨r, hr⟩ := h.inHierarchy (Table.contains_of_get? (hos o (by simp)))
    rw [idsWithin, Action.run_bind, run_rootOf hr]
    dsimp only
    rw [Action.run_bind, hrun]
    by_cases hsame : r = root
    · subst hsame
      refine ⟨o :: here, by simp [Action.run_pure], hsub.cons_cons o, fun x => ?_⟩
      rw [List.mem_cons, List.mem_cons, hmem]
      constructor
      · rintro (rfl | ⟨hx, hin⟩)
        · exact ⟨.inl rfl, hr⟩
        · exact ⟨.inr hx, hin⟩
      · rintro ⟨rfl | hx, hin⟩
        · exact .inl rfl
        · exact .inr ⟨hx, hin⟩
    · refine ⟨here, by simp [Action.run_pure, hsame], hsub.cons o, fun x => ?_⟩
      rw [List.mem_cons, hmem]
      constructor
      · exact fun ⟨hx, hin⟩ => ⟨.inr hx, hin⟩
      · rintro ⟨rfl | hx, hin⟩
        · exact absurd (hr.unique hin) hsame
        · exact ⟨hx, hin⟩

/-- In a hierarchy a name stands for one organization at most. -/
theorem run_idsByName (setting : Setting) (h : t.store.Linked)
    (hnamed : t.store.NamesUnique d.config.nameScope) (name root : String) :
    (d.idsByName name root).run setting.still t = (.ok [], t) ∧
        (∀ o, t.store.Holds o → o.name = name → ¬ t.store.InHierarchy root o.id) ∨
      ∃ o, (d.idsByName name root).run setting.still t = (.ok [o.id], t) ∧
        ∀ p, t.store.Holds p → p.name = name → t.store.InHierarchy root p.id → p = o := by
  have hcall : (Action.call (.named name)).run setting.still t = (.ok (t.store.named name), t) :=
    rfl
  obtain ⟨here, hrun, hsub, hmem⟩ : ∃ here : List Organization,
      (d.idsWithin root (t.store.named name)).run setting.still t = _ ∧ _ :=
    run_idsWithin h root fun o ho => (h.mem_named.1 ho).1
  simp only [h.mem_named] at hmem
  have hids : (d.idsByName name root).run setting.still t = (.ok (here.map (·.id)), t) := by
    rw [idsByName, Action.run_bind, hcall]
    exact hrun
  -- all that are found have the same name and the same root
  have hone : ∀ o ∈ here, ∀ p ∈ here, o = p := fun o ho p hp => by
    obtain ⟨⟨ho, honame⟩, hoin⟩ := (hmem o).1 ho
    obtain ⟨⟨hp, hpname⟩, hpin⟩ := (hmem p).1 hp
    refine hnamed o p ho hp (honame.trans hpname.symm) ?_
    cases d.config.nameScope with
    | global => exact trivial
    | hierarchy => exact .inr ⟨root, hoin, hpin⟩
  rw [hids]
  match here, hsub.nodup (h.nodup_named name), hone, hmem with
  | [], _, _, hmem =>
    refine .inl ⟨rfl, fun o ho hname hin => ?_⟩
    simpa using (hmem o).2 ⟨⟨ho, hname⟩, hin⟩
  | [o], _, _, hmem =>
    refine .inr ⟨o, rfl, fun p hp hname hin => ?_⟩
    simpa using (hmem p).2 ⟨⟨hp, hname⟩, hin⟩
  | o :: p :: rest, hnodup, hone, _ =>
    have heq := hone o (by simp) p (by simp)
    simp [heq] at hnodup

/-- Whom a caller in a hierarchy calls by a name is found, or there is nobody of that name. -/
theorem run_idOfName (setting : Setting) (h : t.store.Linked)
    (hnamed : t.store.NamesUnique d.config.nameScope) {caller : Caller} {acting root : String}
    (hacting : caller.acting = some acting) (hroot : t.store.InHierarchy root acting)
    (name : String) :
    (d.idOfName caller name).run setting.still t =
          (.error (.notFound (.organization (Text.trimmed name))), t) ∧
        (∀ o, t.store.Holds o → o.name = Text.trimmed name → ¬ t.store.InHierarchy root o.id) ∨
      ∃ o, (d.idOfName caller name).run setting.still t = (.ok o.id, t) ∧
        ∀ p, t.store.Holds p → p.name = Text.trimmed name → t.store.InHierarchy root p.id →
          p = o := by
  unfold idOfName
  dsimp only
  rw [Action.run_bind, run_scopeRoot hacting hroot]
  dsimp only
  rw [Action.run_bind]
  rcases run_idsByName setting h hnamed (Text.trimmed name) root with
    ⟨hrun, hnobody⟩ | ⟨o, hrun, honly⟩
  · rw [hrun]
    exact .inl ⟨rfl, hnobody⟩
  · rw [hrun]
    exact .inr ⟨o, rfl, honly⟩

/-! ## After a history -/

theorem wellNamed_empty (scope : NameScope) : Store.empty.WellNamed scope where
  trimmed o ho := by simp [Store.Holds, Store.empty] at ho
  unique o p ho := by simp [Store.Holds, Store.empty] at ho

/-- **Names are unique, and lead to whom they name.** After whatever changes, made or refused, no
two rivals have the same name. A caller who acts in a hierarchy is therefore never told that a name
is ambiguous, and finds every organization of the hierarchy by its name, with any blanks around
it. -/
theorem names_after (d : Directory) (first : Int64) (requests : List Request) :
    (d.after first requests).store.NamesUnique d.config.nameScope ∧
      ∀ (setting : Setting) (caller : Caller) (acting : String), caller.acting = some acting →
        (d.after first requests).store.organizations.contains acting = true →
        (∀ name cause, ((d.idOfName caller name).run setting.undisturbed.environment
          (d.after first requests).next).1 ≠ .error (.conflict cause)) ∧
        ∀ o root, (d.after first requests).store.Holds o →
          (d.after first requests).store.InHierarchy root acting →
          (d.after first requests).store.InHierarchy root o.id →
          ∀ pad pad' : String, Text.Blank pad → Text.Blank pad' →
            ((d.idOfName caller (pad ++ o.name ++ pad')).run setting.undisturbed.environment
              (d.after first requests).next).1 = .ok o.id := by
  obtain ⟨hs, h⟩ := after_invariant (wellNamed_empty _) wellNamed_step first requests
  have hlinked : (d.after first requests).next.store.Linked := hs.toLinked
  refine ⟨h.unique, fun setting caller acting hacting hknown => ⟨fun name cause => ?_, ?_⟩⟩
  · obtain ⟨root, hroot⟩ := hs.inHierarchy hknown
    rw [(setting.run_undisturbed _ _).1]
    rcases run_idOfName setting hlinked h.unique hacting hroot name with
      ⟨hrun, -⟩ | ⟨o, hrun, -⟩ <;>
    · rw [hrun]
      simp
  · intro o root ho hroot hin pad pad' hpad hpad'
    have hname : Text.trimmed (pad ++ o.name ++ pad') = o.name :=
      Text.trimmed_padded (h.trimmed o ho) hpad hpad'
    rw [(setting.run_undisturbed _ _).1]
    rcases run_idOfName setting hlinked h.unique hacting hroot (pad ++ o.name ++ pad') with
      ⟨-, hnobody⟩ | ⟨p, hrun, honly⟩
    · exact absurd hin (hnobody o ho hname.symm)
    · rw [hrun, honly o ho hname.symm hin]

/-- Two trees with children of one name. -/
def namesakes : List Request :=
  let child (parent : String) : Organization :=
    { Organization.new .epoch "Child" with parentId := some parent }
  List.map Mutation.plain [
    .add .epoch "first" (.new .epoch "First"),
    .add .epoch "second" (.new .epoch "Second"),
    .add .epoch "child" (child "first"),
    .add .epoch "namesake" (child "second")]

/-- Each of the namesakes is found from its own tree. -/
theorem names_after_namesakes :
    (standard.after 1 namesakes).store.organizations.contains "second" = true ∧
      (standard.after 1 namesakes).store.InHierarchy "second" "namesake" ∧
      Text.Blank "\t" ∧ Text.Blank " " ∧
      ((standard.idOfName (.onBehalfOf "request" "second") "\tChild ").run
        Setting.plain.undisturbed.environment (standard.after 1 namesakes).next).1 =
          .ok "namesake" := by
  have hknown : (standard.after 1 namesakes).store.organizations.contains "second" = true := by
    decide +kernel
  have hroot : (standard.after 1 namesakes).store.InHierarchy "second" "second" :=
    ⟨["second"], .root (by decide +kernel), rfl⟩
  have hin : (standard.after 1 namesakes).store.InHierarchy "second" "namesake" :=
    ⟨["second", "namesake"], .child (by decide +kernel) (.root (by decide +kernel)), rfl⟩
  have hheld : (standard.after 1 namesakes).store.Holds
      { Organization.new .epoch "Child" with
        id := "namesake", parentId := some "second", version := 1 } := by
    decide +kernel
  have hpad : Text.Blank "\t" := by decide
  have hpad' : Text.Blank " " := by decide
  refine ⟨hknown, hin, hpad, hpad', ?_⟩
  exact ((names_after standard 1 namesakes).2 .plain (.onBehalfOf "request" "second") "second" rfl
    hknown).2 _ "second" hheld hroot hin "\t" " " hpad hpad'

end Directory

end OrgForest
