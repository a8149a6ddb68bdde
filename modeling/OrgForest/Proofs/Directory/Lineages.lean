import OrgForest.Proofs.Directory.Step

/-!
# Lineages after a step

A step changes one record, but a move changes the lineages of all that stand below it. Here each
lineage after a step is traced back to lineages before it.

* `Directory.Newcomer.lineage` — a new record stands at the end of its parent's lineage;
* `Directory.Edit.lineage` — what comes along with a moved record gets a new front;
* `Directory.Edit.inHierarchy` — and stays in its hierarchy.
-/

namespace OrgForest.Directory

variable {d : Directory} {s s' : Store} {x : String} {c : Chain}

/-- The lineage of a new record is that of its parent and the record itself; all others stay. -/
theorem Newcomer.lineage {o : Organization} (ho : d.Newcomer s o) (hs : s.Linked)
    (hwritten : s'.organizations = s.organizations.insert o.id o)
    (hx : Lineage s'.parentId? x c) :
    x ≠ o.id ∧ Lineage s.parentId? x c ∨
      x = o.id ∧ (o.parentId = none ∧ c = [o.id] ∨
        ∃ p chain, o.parentId = some p ∧ Lineage s.parentId? p chain ∧ c = chain ++ [o.id]) := by
  by_cases hid : x = o.id
  · subst hid
    refine .inr ⟨rfl, ?_⟩
    cases hp : o.parentId with
    | none => exact .inl ⟨rfl, hx.unique (Store.lineage_of_root hwritten hp)⟩
    | some p =>
      obtain ⟨root, hhosts, -⟩ := ho.below p hp
      obtain ⟨chain, hchain, -⟩ := hhosts.placed
      refine .inr ⟨p, chain, rfl, hchain, ?_⟩
      have hapart := Store.not_mem_of_new hchain ho.fresh
      exact hx.unique (Store.lineage_of_child hwritten hp hchain hapart)
  · -- a record of the store after the step that is not the new one was there before
    have hold : s.organizations.contains x = true := by
      obtain ⟨p, hp⟩ := hx.known hx.mem_self
      rw [Store.parentId?_of_written hwritten, if_neg hid] at hp
      exact Store.contains_of_parentId? hp
    obtain ⟨chain, hchain⟩ := hs.lineage hold
    rw [hx.unique (Store.lineage_of_new hwritten ho.fresh hchain)]
    exact .inl ⟨hid, hchain⟩

/-- A lineage after an edit is one from before, or it leads through a record that has been moved. -/
theorem Edit.lineage {old new : Organization} (he : d.Edit s old new) (hs : s.Linked)
    (hwritten : s'.organizations = s.organizations.insert new.id new)
    (hx : Lineage s'.parentId? x c) :
    Lineage s.parentId? x c ∨
      ∃ p chain front rest, d.Admits s p old.id ∧ Lineage s.parentId? p chain ∧
        Lineage s.parentId? old.id front ∧ Lineage s.parentId? x (front ++ rest) ∧
        c = chain ++ old.id :: rest := by
  have hsame : ∀ y, y ≠ new.id → s.parentId? y = s'.parentId? y :=
    fun y hy => by rw [Store.parentId?_of_written hwritten, if_neg hy]
  rcases he.moved with hkept | ⟨p, hp, -, hadmits⟩
  · rw [Store.parentId?_of_kept hwritten (he.same ▸ he.held) hkept.symm] at hx
    exact .inl hx
  · by_cases hmem : new.id ∈ c
    · -- the part below the record is put back under the front that it had before
      obtain ⟨front', rest, rfl, hfront'⟩ := hx.split hmem
      obtain ⟨front, hfront⟩ := hs.rooted old.id old he.held
      obtain ⟨chain, hchain, hapart⟩ := hadmits.apart
      rw [← he.same] at hfront hapart ⊢
      refine .inr ⟨p, chain, front, rest, he.same ▸ hadmits, hchain, hfront, ?_, ?_⟩
      · exact hfront'.regraft hsame hfront hx
      · rw [hfront'.unique (Store.lineage_of_child hwritten hp hchain hapart), List.append_assoc]
        rfl
    · exact .inl (hx.congr fun y hy => hsame y fun heq => hmem (heq ▸ hy))

/-- No edit takes a record, or what comes along with it, to another hierarchy. -/
theorem Edit.inHierarchy {old new : Organization} (he : d.Edit s old new) (hs : s.Linked)
    (hwritten : s'.organizations = s.organizations.insert new.id new) {root : String}
    (hx : s'.InHierarchy root x) : s.InHierarchy root x := by
  obtain ⟨c, hc, hroot⟩ := hx
  rcases he.lineage hs hwritten hc with
    hsame | ⟨p, chain, front, rest, hadmits, hchain, hfront, hold, rfl⟩
  · exact ⟨c, hsame, hroot⟩
  · -- the old front and the new one start at the same root
    obtain ⟨root', height, hin, -, hhosts⟩ := hadmits.fits
    obtain ⟨chain', hchain', hhead', -⟩ := hhosts.placed
    obtain rfl := hchain.unique hchain'
    obtain ⟨front', hfront', hhead⟩ := hin
    obtain rfl := hfront.unique hfront'
    rw [List.head?_append, hhead'] at hroot
    refine ⟨front ++ rest, hold, ?_⟩
    rw [List.head?_append, hhead]
    exact hroot

end OrgForest.Directory
