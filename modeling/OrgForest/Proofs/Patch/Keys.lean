import OrgForest.Directory.Naming
import OrgForest.Proofs.Patch.Spared

/-!
# Keys of attributes

Whoever hands over a whole organization has the keys of its attributes checked: none is blank, and
none comes twice. A patch has none of its keys checked. But a patch takes its keys from paths, which
are trimmed first, so that a key ends in a character that is not blank and has no escape that stands
for a blank one; and it puts a value in the place of the one that is there already.

* `Keyed` — attributes whose keys are distinct and not blank;
* `Directory.validAttributes_eq_ok` — the check of whole lists;
* `Patch.Target.key_of_path` — keys that come from paths;
* `Patch.apply_keyed` — patches leave keys distinct and not blank.
-/

namespace OrgForest

/-- The keys of attributes are distinct and not blank. -/
structure Keyed (as : List Attribute) : Prop where
  distinct : (as.map (·.key)).Nodup
  named : ∀ key ∈ as.map (·.key), Text.trimmed key ≠ ""

/-! ## Whole lists -/

namespace Directory

theorem validKeys_eq_ok {seen : List String} {as : List Attribute} :
    validKeys seen as = .ok () ↔ Keyed as ∧ ∀ key ∈ as.map (·.key), key ∉ seen := by
  induction as generalizing seen with
  | nil => exact iff_of_true rfl ⟨⟨List.nodup_nil, by simp⟩, by simp⟩
  | cons a as ih =>
    rw [validKeys]
    by_cases hblank : Text.trimmed a.key = ""
    · rw [if_pos hblank]
      exact iff_of_false nofun fun h => h.1.named a.key (by simp) hblank
    · rw [if_neg hblank]
      by_cases hseen : a.key ∈ seen
      · rw [if_pos hseen]
        exact iff_of_false nofun fun h => h.2 a.key (by simp) hseen
      · -- the first key is one of those seen by the rest
        rw [if_neg hseen, ih]
        constructor
        · rintro ⟨⟨hdistinct, hnamed⟩, hrest⟩
          refine ⟨⟨List.nodup_cons.2 ⟨fun hmem => ?_, hdistinct⟩, ?_⟩, ?_⟩
          · exact hrest a.key hmem List.mem_cons_self
          · exact List.forall_mem_cons.2 ⟨hblank, hnamed⟩
          · exact List.forall_mem_cons.2
              ⟨hseen, fun key hkey hmem => hrest key hkey (List.mem_cons_of_mem _ hmem)⟩
        · rintro ⟨⟨hdistinct, hnamed⟩, hrest⟩
          obtain ⟨hnew, hdistinct⟩ := List.nodup_cons.1 hdistinct
          refine ⟨⟨hdistinct, fun key hkey => hnamed key (List.mem_cons_of_mem _ hkey)⟩, ?_⟩
          intro key hkey hmem
          rcases List.mem_cons.1 hmem with rfl | hmem
          · exact hnew hkey
          · exact hrest key (List.mem_cons_of_mem _ hkey) hmem

theorem validAttributes_eq_ok {as : List Attribute} : validAttributes as = .ok () ↔ Keyed as := by
  rw [validAttributes, validKeys_eq_ok]
  exact and_iff_left (by simp)

end Directory

/-! ## One attribute -/

namespace Keyed

variable {as : List Attribute}

theorem put (h : Keyed as) {key : String} (hkey : Text.trimmed key ≠ "") (value : String) :
    Keyed (Organization.putAttribute key value as) := by
  constructor
  · rw [Organization.keys_putAttribute]
    split
    · exact h.distinct
    · next hnew =>
      have hapart : ∀ k ∈ as.map (·.key), ∀ k' ∈ [key], k ≠ k' := by
        rintro k hk _ hk' rfl
        exact hnew (List.mem_singleton.1 hk' ▸ hk)
      exact List.nodup_append.2 ⟨h.distinct, by simp, hapart⟩
  · rw [Organization.keys_putAttribute]
    split
    · exact h.named
    · intro k hk
      rcases List.mem_append.1 hk with hk | hk
      · exact h.named k hk
      · exact List.mem_singleton.1 hk ▸ hkey

theorem drop (h : Keyed as) (key : String) : Keyed (Organization.dropAttribute key as) := by
  constructor
  · rw [Organization.keys_dropAttribute]
    exact h.distinct.erase key
  · rw [Organization.keys_dropAttribute]
    exact fun k hk => h.named k (List.mem_of_mem_erase hk)

end Keyed

/-! ## Keys that come from paths -/

namespace Patch

/-- Reading the escapes of a key makes nothing blank. -/
theorem exists_not_blank_unescapeKey {cs : List Char} (h : ∃ c ∈ cs, Text.isBlank c = false) :
    ∃ c ∈ unescapeKey cs, Text.isBlank c = false := by
  -- on the text as it is read: an escape stands for a mark, any other character for itself
  induction cs using unescapeKey.induct with
  | case1 cs ih => exact ⟨'/', by simp [unescapeKey], by decide⟩
  | case2 cs ih => exact ⟨'~', by simp [unescapeKey], by decide⟩
  | case3 c cs hslash htilde ih =>
    obtain ⟨c', hc', hnot⟩ := h
    rw [unescapeKey]
    · rcases List.mem_cons.1 hc' with rfl | hc'
      · exact ⟨c', List.mem_cons_self, hnot⟩
      · obtain ⟨c'', hc'', hnot⟩ := ih ⟨c', hc', hnot⟩
        exact ⟨c'', List.mem_cons_of_mem _ hc'', hnot⟩
    · exact hslash
    · exact htilde
  | case4 => simp at h

/-- The key in a path is not blank: the path has been trimmed, and the key comes last in it. -/
theorem Target.key_of_path {path key : String} (h : ofPath path = .ok (.custom key)) :
    Text.trimmed key ≠ "" := by
  unfold ofPath at h
  split at h
  · next pointer hpath =>
    split at h
    · next hmark =>
      obtain ⟨written, rfl⟩ := List.isPrefixOf_iff_prefix.1 hmark
      rw [List.drop_left] at h
      split at h
      · cases h
      · next hsome =>
        cases h
        -- what a trimmed text ends with is not all blank, unless it is nothing
        have hlast : written <:+ Text.trim path.toList := by
          rw [hpath]
          exact ⟨'/' :: customMark, rfl⟩
        refine Text.trimmed_ne_empty ?_
        rw [String.toList_ofList]
        exact exists_not_blank_unescapeKey (Text.exists_not_blank_of_suffix hlast hsome)
    · -- no other path names an attribute
      dsimp only at h
      split_ifs at h <;> cases h
  · cases h

/-! ## Patches -/

theorem Operation.Outcome.keyed {o : Operation} {org org' : Organization}
    (h : o.Outcome org org') (hkeyed : Keyed org.attributes) : Keyed org'.attributes := by
  cases h with
  | name => exact hkeyed
  | description => exact hkeyed
  | status => exact hkeyed
  | put key value hpath => exact hkeyed.put (Target.key_of_path hpath) value
  | drop key => exact hkeyed.drop key

/-- A patch leaves the keys of attributes distinct and not blank. -/
theorem apply_keyed {ops : List Operation} {org org' : Organization}
    (h : apply ops org = .ok org') (hkeyed : Keyed org.attributes) : Keyed org'.attributes :=
  applyAll_invariant (I := fun o => Keyed o.attributes) Operation.Outcome.keyed h hkeyed

end Patch

end OrgForest
