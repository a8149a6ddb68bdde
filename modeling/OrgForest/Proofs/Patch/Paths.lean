import Mathlib.Data.List.Induction
import OrgForest.Proofs.Patch.Keys

/-!
# Paths of attributes

The path of a custom attribute ends in its key, in which a tilde is written `~0` and a slash `~1`.
Reading this back undoes it, whatever characters the key has; it does not matter whether both
escapes are read at once or one after the other. But a path is trimmed before it is read. No blank
at the front of a key is lost by this, as the key does not come first, and blanks within the key are
safe as well; only those at its end are lost. A key with blanks at its end has no path, and what was
meant to be its path is that of the key without them.

* `Patch.unescapeKey_escapeKey`, `Patch.unescapeKey_eq_replacePair` — escapes;
* `Patch.Target.ofPath_keyPath` — the key that a path names;
* `Patch.apply_keyPath` — what is done at the path of a key.
-/

namespace OrgForest.Patch

/-! ## Escapes -/

section Characters

variable {c : Char} {cs : List Char}

/-- A character that has no escape stands for itself. -/
theorem escapeKey_cons (htilde : c ≠ '~') (hslash : c ≠ '/') :
    escapeKey (c :: cs) = c :: escapeKey cs := by
  rw [escapeKey]
  · exact htilde
  · exact hslash

/-- Only a tilde begins an escape. -/
theorem unescapeKey_cons (htilde : c ≠ '~') : unescapeKey (c :: cs) = c :: unescapeKey cs := by
  rw [unescapeKey]
  · exact fun _ hc _ => htilde hc
  · exact fun _ hc _ => htilde hc

end Characters

/-- What is written can be read back. -/
theorem unescapeKey_escapeKey (cs : List Char) : unescapeKey (escapeKey cs) = cs := by
  -- on the key as it is written
  induction cs using escapeKey.induct with
  | case1 => rfl
  | case2 cs ih => rw [escapeKey, unescapeKey, ih]
  | case3 cs ih => rw [escapeKey, unescapeKey, ih]
  | case4 c cs htilde hslash ih =>
    rw [escapeKey_cons htilde hslash, unescapeKey_cons htilde, ih]

/-- A text with each pair of these characters replaced, from the front on. -/
def replacePair (first second replacement : Char) : List Char → List Char
  | c :: d :: cs =>
    if c = first ∧ d = second then replacement :: replacePair first second replacement cs
    else c :: replacePair first second replacement (d :: cs)
  | cs => cs

section Replace

variable {first second replacement c : Char} {cs : List Char}

theorem replacePair_cons (h : c ≠ first ∨ cs.head? ≠ some second) :
    replacePair first second replacement (c :: cs) =
      c :: replacePair first second replacement cs := by
  cases cs with
  | nil => rfl
  | cons d cs =>
    rw [replacePair, if_neg]
    rintro ⟨rfl, rfl⟩
    simp at h

/-- A replaced text begins as before, or with a replacement. -/
theorem head?_replacePair (first second replacement : Char) (cs : List Char) :
    (replacePair first second replacement cs).head? = cs.head? ∨
      (replacePair first second replacement cs).head? = some replacement := by
  match cs with
  | [] => exact .inl rfl
  | [c] => exact .inl rfl
  | c :: d :: cs =>
    rw [replacePair]
    split
    · exact .inr rfl
    · exact .inl rfl

end Replace

/-- The two escapes may be replaced one after the other: the first replacement brings no naught
behind a tilde that did not stand there before. -/
theorem unescapeKey_eq_replacePair (cs : List Char) :
    unescapeKey cs = replacePair '~' '0' '~' (replacePair '~' '1' '/' cs) := by
  -- on the key as it is read: what begins an escape there has to begin one in either replacement
  induction cs using unescapeKey.induct with
  | case1 cs ih =>
    have hslash : replacePair '~' '1' '/' ('~' :: '1' :: cs) = '/' :: replacePair '~' '1' '/' cs :=
      rfl
    rw [unescapeKey, hslash, replacePair_cons (.inl (by decide)), ih]
  | case2 cs ih =>
    have hnaught : replacePair '~' '1' '/' ('~' :: '0' :: cs) =
        '~' :: '0' :: replacePair '~' '1' '/' cs := by
      rw [replacePair_cons (.inr (by simp)), replacePair_cons (.inl (by decide))]
    rw [unescapeKey, hnaught, ih]
    rfl
  | case3 c cs hslash htilde ih =>
    have hone : c ≠ '~' ∨ cs.head? ≠ some '1' := by
      by_contra! hpair
      obtain ⟨rest, rfl⟩ := List.head?_eq_some_iff.1 hpair.2
      exact hslash rest hpair.1 rfl
    have hzero : c ≠ '~' ∨ (replacePair '~' '1' '/' cs).head? ≠ some '0' := by
      by_contra! hpair
      rcases head?_replacePair '~' '1' '/' cs with hsame | hnew
      · rw [hsame] at hpair
        obtain ⟨rest, rfl⟩ := List.head?_eq_some_iff.1 hpair.2
        exact htilde rest hpair.1 rfl
      · rw [hnew] at hpair
        exact absurd hpair.2 (by decide)
    rw [replacePair_cons hone, replacePair_cons hzero, unescapeKey, ih]
    · exact hslash
    · exact htilde
  | case4 => rfl

theorem escapeKey_append (cs ds : List Char) :
    escapeKey (cs ++ ds) = escapeKey cs ++ escapeKey ds := by
  induction cs using escapeKey.induct with
  | case1 => rfl
  | case2 cs ih => rw [List.cons_append, escapeKey, escapeKey, ih]; rfl
  | case3 cs ih => rw [List.cons_append, escapeKey, escapeKey, ih]; rfl
  | case4 c cs htilde hslash ih =>
    rw [List.cons_append, escapeKey_cons htilde hslash, escapeKey_cons htilde hslash, ih]
    rfl

/-- An escape ends in a blank exactly if what is escaped does. -/
theorem trimRight_escapeKey (cs : List Char) :
    Text.trimRight (escapeKey cs) = escapeKey (Text.trimRight cs) := by
  -- on the key from its end, as that is where it is trimmed
  induction cs using List.reverseRecOn with
  | nil => rfl
  | append_singleton cs c ih =>
    rw [Text.trimRight_concat, escapeKey_append]
    by_cases hblank : Text.isBlank c = true
    · -- a blank has no escape
      have hplain : escapeKey [c] = [c] := by
        refine escapeKey_cons ?_ ?_
        · rintro rfl
          exact absurd hblank (by decide)
        · rintro rfl
          exact absurd hblank (by decide)
      rw [if_pos hblank, hplain, Text.trimRight_concat, if_pos hblank, ih]
    · rw [if_neg hblank, escapeKey_append]
      have hlast : ∃ front d, escapeKey [c] = front ++ [d] ∧ Text.isBlank d = false := by
        by_cases htilde : c = '~'
        · exact ⟨['~'], '0', by rw [htilde]; rfl, by decide⟩
        · by_cases hslash : c = '/'
          · exact ⟨['~'], '1', by rw [hslash]; rfl, by decide⟩
          · exact ⟨[], c, escapeKey_cons htilde hslash, by simpa using hblank⟩
      obtain ⟨front, d, hesc, hd⟩ := hlast
      rw [hesc, ← List.append_assoc, Text.trimRight_concat, hd]
      rfl

/-! ## Paths -/

/-- The path of a custom attribute. -/
def keyPath (key : String) : String := "/attributes/" ++ String.ofList (escapeKey key.toList)

theorem toList_keyPath (key : String) :
    (keyPath key).toList = '/' :: (customMark ++ escapeKey key.toList) := by
  have hescaped : (String.ofList (escapeKey key.toList)).toList = escapeKey key.toList :=
    String.toList_ofList
  rw [keyPath, String.toList_append, hescaped]
  rfl

/-- A trimmed path is not trimmed at its front, and at its end only in the key. -/
theorem trim_keyPath {key : String} (hkey : Text.trimRight key.toList ≠ []) :
    Text.trim (keyPath key).toList =
      '/' :: (customMark ++ escapeKey (Text.trimRight key.toList)) := by
  have hsome : Text.trimRight (escapeKey key.toList) ≠ [] := by
    rw [trimRight_escapeKey]
    intro hnil
    rw [← unescapeKey_escapeKey (Text.trimRight key.toList), hnil] at hkey
    exact hkey rfl
  have hfront : Text.trimLeft (keyPath key).toList = (keyPath key).toList := by
    rw [toList_keyPath]
    rfl
  rw [Text.trim, hfront, toList_keyPath, ← List.cons_append, Text.trimRight_append, if_neg hsome,
    trimRight_escapeKey]
  rfl

/-- The path of a key names the key without the blanks at its end. -/
theorem Target.ofPath_keyPath {key : String} (hkey : Text.trimmed key ≠ "") :
    ofPath (keyPath key) = .ok (.custom (String.ofList (Text.trimRight key.toList))) := by
  have hsome : Text.trimRight key.toList ≠ [] := by
    intro hnil
    obtain ⟨pad, hpad, hblank⟩ := Text.trimRight_append_blank key.toList
    rw [hnil, List.nil_append] at hblank
    refine hkey ?_
    rw [Text.trimmed, Text.trim, hblank, Text.trimLeft_blank hpad]
    rfl
  have hmark : customMark.isPrefixOf
      (customMark ++ escapeKey (Text.trimRight key.toList)) = true :=
    List.isPrefixOf_iff_prefix.2 (List.prefix_append _ _)
  rw [ofPath, trim_keyPath hsome]
  simp only [hmark, if_true, List.drop_left]
  split
  · next hnil =>
    -- the escape of a key is empty only if the key is
    rw [← unescapeKey_escapeKey (Text.trimRight key.toList), hnil] at hsome
    exact absurd rfl hsome
  · rw [unescapeKey_escapeKey]

/-- A key without blanks at its end has a path. -/
theorem Target.ofPath_keyPath_of_end {key : String} (hkey : Text.trimmed key ≠ "")
    (hend : ∀ c ∈ key.toList.getLast?, Text.isBlank c = false) :
    ofPath (keyPath key) = .ok (.custom key) := by
  rw [ofPath_keyPath hkey, Text.trimRight_eq_self hend, String.ofList_toList]

/-! ## What is done at the path of a key -/

theorem apply_singleton {o : Operation} {e : Edit} {org : Organization} (hasks : o.Asks e)
    (hfits : e.Fits org.bare) : apply [o] org = .ok (e.on org.bare) := by
  rw [apply, applyAll_singleton]
  exact Operation.apply_eq_ok.2 ⟨e, hasks, hfits, rfl⟩

/-- **Paths of attributes.** In an organization whose attributes pass the check of whole lists, let
a key be written with its escapes behind the path of all attributes. That path names the key, but
for blanks at its end. So if the key does not end in a blank, then a removal at the path deletes the
attribute of this key and no other, and a value that is added or put there takes the place of its
value, while all other attributes, and their order, stay. -/
theorem apply_keyPath {org : Organization} {key : String}
    (hvalid : Directory.validAttributes org.attributes = .ok ())
    (hkey : key ∈ org.attributes.map (·.key)) :
    let path := keyPath key
    Target.ofPath path = .ok (.custom (String.ofList (Text.trimRight key.toList))) ∧
      ((∀ c ∈ key.toList.getLast?, Text.isBlank c = false) →
        Target.ofPath path = .ok (.custom key) ∧
        (∀ value, apply [⟨.remove, path, value⟩] org =
          .ok { org.bare with attributes := org.attributes.filter (·.key ≠ key) }) ∧
        ∀ kind, kind ≠ .remove → ∀ text, apply [⟨kind, path, some (.string text)⟩] org =
          .ok { org.bare with
            attributes := org.attributes.map fun a => if a.key = key then ⟨key, text⟩ else a }) := by
  intro path
  have hkeyed : Keyed org.attributes := Directory.validAttributes_eq_ok.1 hvalid
  have hnamed : Text.trimmed key ≠ "" := hkeyed.named key hkey
  refine ⟨Target.ofPath_keyPath hnamed, fun hend => ?_⟩
  have hpath : Target.ofPath path = .ok (.custom key) := Target.ofPath_keyPath_of_end hnamed hend
  refine ⟨hpath, fun value => ?_, fun kind hkind text => ?_⟩
  · have hasks : Operation.Asks ⟨.remove, path, value⟩ (.drop key) := .drop hpath rfl
    rw [apply_singleton hasks hkey, ← Organization.dropAttribute_eq_filter hkeyed.distinct]
    rfl
  · have hasks : Operation.Asks ⟨kind, path, some (.string text)⟩ (.put key text) :=
      .put hpath hkind rfl
    rw [apply_singleton hasks trivial,
      ← Organization.putAttribute_eq_map hkeyed.distinct hkey]
    rfl

/-- An organization with two keys, of which one is the other with a blank at its end. -/
def blankEnded : Organization :=
  { Organization.new .epoch "N" with attributes := [⟨"a", "1"⟩, ⟨"a ", "2"⟩] }

/-- What is meant for the key with the blank is done to the other one. -/
theorem apply_keyPath_blankEnded :
    Directory.validAttributes blankEnded.attributes = .ok () ∧
      "a " ∈ blankEnded.attributes.map (·.key) ∧
      apply [.remove (keyPath "a ")] blankEnded =
        .ok { blankEnded with attributes := [⟨"a ", "2"⟩] } ∧
      apply [.remove (keyPath "a ")] blankEnded ≠ .ok { blankEnded.bare with
        attributes := blankEnded.attributes.filter (·.key ≠ "a ") } := by
  have hpath : Target.ofPath (keyPath "a ") = .ok (.custom "a") :=
    Target.ofPath_keyPath (by decide +kernel)
  have hrun : apply [.remove (keyPath "a ")] blankEnded =
      .ok { blankEnded with attributes := [⟨"a ", "2"⟩] } := by
    have hasks : Operation.Asks (.remove (keyPath "a ")) (.drop "a") := .drop hpath rfl
    have hthere : "a" ∈ blankEnded.bare.attributes.map (·.key) := by decide
    rw [apply_singleton hasks hthere]
    rfl
  refine ⟨rfl, by decide, hrun, ?_⟩
  rw [hrun, Ne, Except.ok.injEq]
  exact fun hsame => absurd (congrArg Organization.attributes hsame) (by decide)

/-- An organization in whose keys escapes and their parts stand as they are. -/
def escaping : Organization :=
  { Organization.new .epoch "N" with
    attributes := [⟨"a/b", "1"⟩, ⟨"~1", "2"⟩, ⟨" ~01", "3"⟩] }

theorem apply_keyPath_escaping :
    keyPath " ~01" = "/attributes/ ~001" ∧
      apply [.remove (keyPath " ~01")] escaping =
        .ok { escaping with attributes := [⟨"a/b", "1"⟩, ⟨"~1", "2"⟩] } ∧
      apply [.add (keyPath " ~01") (.string "4")] escaping =
        .ok { escaping with attributes := [⟨"a/b", "1"⟩, ⟨"~1", "2"⟩, ⟨" ~01", "4"⟩] } := by
  have hvalid : Directory.validAttributes escaping.attributes = .ok () := rfl
  have hkey : " ~01" ∈ escaping.attributes.map (·.key) := by decide +kernel
  have hend : ∀ c ∈ " ~01".toList.getLast?, Text.isBlank c = false := by
    intro c hc
    obtain rfl : '1' = c := Option.some.inj hc
    rfl
  obtain ⟨-, hdone⟩ := apply_keyPath hvalid hkey
  obtain ⟨-, hremove, hwrite⟩ := hdone hend
  exact ⟨rfl, hremove none, hwrite .add nofun "4"⟩

end OrgForest.Patch
