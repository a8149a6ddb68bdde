import Mathlib.Data.List.TakeWhile
import OrgForest.Text.Blank

/-!
# Trimmed texts

A text that has been trimmed has no blank at either end, so trimming it again changes nothing, and
blanks put around it are what is dropped.

* `Text.trimmed_trimmed` — trimming is done once;
* `Text.exists_pads` — a text is a trimmed one between blanks;
* `Text.trimmed_padded`, `Text.trimmed_surrounded` — blanks around a text do not count;
* `Text.trimmed_ne_empty`, `Text.exists_not_blank_of_suffix` — what is left of a text, and how it
  ends.
-/

namespace OrgForest.Text

/-- A text of blanks. -/
def Blank (s : String) : Prop := ∀ c ∈ s.toList, isBlank c = true

instance (s : String) : Decidable (Blank s) :=
  decidable_of_iff (s.toList.all isBlank = true) List.all_eq_true

theorem Blank.append {s s' : String} (h : Blank s) (h' : Blank s') : Blank (s ++ s') := by
  intro c hc
  rw [String.toList_append, List.mem_append] at hc
  exact hc.elim (h c) (h' c)

/-! ## One end -/

theorem trimLeft_trimLeft (cs : List Char) : trimLeft (trimLeft cs) = trimLeft cs := by
  unfold trimLeft
  induction cs with
  | nil => rfl
  | cons c cs ih =>
    by_cases h : isBlank c = true
    · rw [List.dropWhile_cons_of_pos h, ih]
    · rw [List.dropWhile_cons_of_neg h, List.dropWhile_cons_of_neg h]

theorem trimLeft_blank {pad : List Char} (h : ∀ c ∈ pad, isBlank c = true) : trimLeft pad = [] := by
  rw [trimLeft, ← List.append_nil pad, List.dropWhile_append_of_pos h, List.dropWhile_nil]

theorem trimRight_trimRight (cs : List Char) : trimRight (trimRight cs) = trimRight cs := by
  rw [trimRight, trimRight, List.reverse_reverse]
  exact congrArg List.reverse (trimLeft_trimLeft cs.reverse)

/-- What is dropped at the end is blank. -/
theorem trimRight_append_blank (cs : List Char) :
    ∃ pad, (∀ c ∈ pad, isBlank c = true) ∧ cs = trimRight cs ++ pad := by
  refine ⟨(cs.reverse.takeWhile isBlank).reverse, fun c hc => ?_, ?_⟩
  · exact List.all_eq_true.1 List.all_takeWhile c (List.mem_reverse.1 hc)
  · rw [trimRight, ← List.reverse_append, List.takeWhile_append_dropWhile, List.reverse_reverse]

/-- Trimming the end brings no blank to the front. -/
theorem trimLeft_trimRight {cs : List Char} (h : trimLeft cs = cs) :
    trimLeft (trimRight cs) = trimRight cs := by
  obtain ⟨pad, hpad, hcs⟩ := trimRight_append_blank cs
  have hsplit : trimLeft (trimRight cs ++ pad) = trimRight cs ++ pad := by rw [← hcs, h]
  rw [trimLeft, List.dropWhile_append] at hsplit
  split at hsplit
  · -- nothing but blanks was left, so nothing is left at all
    next hblank =>
    change trimLeft pad = _ at hsplit
    rw [trimLeft_blank hpad] at hsplit
    rw [(List.append_eq_nil_iff.1 hsplit.symm).1]
    rfl
  · exact List.append_cancel_right hsplit

/-- The end of a text is trimmed in what comes last in it and is not all blank. -/
theorem trimRight_append (front cs : List Char) : trimRight (front ++ cs) =
    if trimRight cs = [] then trimRight front else front ++ trimRight cs := by
  simp only [trimRight, List.reverse_append, List.dropWhile_append, List.isEmpty_iff,
    List.reverse_eq_nil_iff]
  split
  · rfl
  · rw [List.reverse_append, List.reverse_reverse]

theorem trimRight_concat (cs : List Char) (c : Char) :
    trimRight (cs ++ [c]) = if isBlank c = true then trimRight cs else cs ++ [c] := by
  rw [trimRight_append]
  by_cases hblank : isBlank c = true
  · simp [trimRight, hblank]
  · simp [trimRight, hblank]

/-- A text that does not end in a blank has no blanks at its end. -/
theorem trimRight_eq_self {cs : List Char} (h : ∀ c ∈ cs.getLast?, isBlank c = false) :
    trimRight cs = cs := by
  rcases List.eq_nil_or_concat cs with rfl | ⟨front, c, rfl⟩
  · rfl
  · rw [List.concat_eq_append] at h ⊢
    rw [trimRight_concat, h c (by simp)]
    rfl

/-! ## Both ends -/

theorem trim_trim (cs : List Char) : trim (trim cs) = trim cs := by
  have hleft : trimLeft (trim cs) = trim cs := trimLeft_trimRight (trimLeft_trimLeft cs)
  rw [trim, hleft]
  exact trimRight_trimRight _

theorem trimmed_trimmed (s : String) : trimmed (trimmed s) = trimmed s := by
  rw [trimmed, toList_trimmed, trim_trim]
  rfl

/-- Nothing is dropped from a text without blanks. -/
theorem trim_of_no_blank {cs : List Char} (h : ∀ c ∈ cs, isBlank c = false) : trim cs = cs := by
  have hdrop {cs : List Char} (h : ∀ c ∈ cs, isBlank c = false) : cs.dropWhile isBlank = cs := by
    cases cs with
    | nil => rfl
    | cons c cs => exact List.dropWhile_cons_of_neg (by simp [h c])
  rw [trim, trimLeft, hdrop h, trimRight, hdrop fun c hc => h c (List.mem_reverse.1 hc),
    List.reverse_reverse]

theorem trim_padded {pad cs pad' : List Char} (hcs : trim cs = cs)
    (hpad : ∀ c ∈ pad, isBlank c = true) (hpad' : ∀ c ∈ pad', isBlank c = true) :
    trim (pad ++ cs ++ pad') = cs := by
  have hback : List.dropWhile isBlank (pad'.reverse ++ cs.reverse) = cs.reverse.dropWhile isBlank :=
    List.dropWhile_append_of_pos fun c hc => hpad' c (List.mem_reverse.1 hc)
  have hleft : trimLeft cs = cs := by
    rw [← hcs]
    exact trimLeft_trimRight (trimLeft_trimLeft cs)
  rw [trim, trimLeft, List.append_assoc, List.dropWhile_append_of_pos hpad, List.dropWhile_append]
  change cs.dropWhile isBlank = cs at hleft
  rw [hleft]
  split
  · next hnil =>
    -- an empty text between blanks: the front takes all of them
    rw [List.isEmpty_iff] at hnil
    change trimRight (trimLeft pad') = cs
    rw [trimLeft_blank hpad', hnil]
    rfl
  · rw [trimRight, List.reverse_append, hback]
    rw [trim, trimLeft, hleft, trimRight] at hcs
    exact hcs

/-- Blanks around a trimmed text do not count. -/
theorem trimmed_padded {pad name pad' : String} (hname : trimmed name = name)
    (hpad : Blank pad) (hpad' : Blank pad') : trimmed (pad ++ name ++ pad') = name := by
  have hcs : trim name.toList = name.toList := by rw [← toList_trimmed, hname]
  rw [trimmed, String.toList_append, String.toList_append, trim_padded hcs hpad hpad']
  exact String.ofList_toList

/-- A text is what is left of it when it is trimmed, between blanks. -/
theorem exists_pads (s : String) :
    ∃ pad pad', Blank pad ∧ Blank pad' ∧ s = pad ++ trimmed s ++ pad' := by
  obtain ⟨back, hback, hsplit⟩ := trimRight_append_blank (trimLeft s.toList)
  refine ⟨String.ofList (s.toList.takeWhile isBlank), String.ofList back, ?_, ?_, ?_⟩
  · intro c hc
    rw [String.toList_ofList] at hc
    exact List.all_eq_true.1 List.all_takeWhile c hc
  · intro c hc
    exact hback c (by rwa [String.toList_ofList] at hc)
  · rw [← String.toList_inj, String.toList_append, String.toList_append, toList_trimmed,
      String.toList_ofList, String.toList_ofList, List.append_assoc, trim, ← hsplit]
    exact List.takeWhile_append_dropWhile.symm

/-- Blanks around a text that may have some already do not count. -/
theorem trimmed_surrounded {pad pad' : String} (hpad : Blank pad) (hpad' : Blank pad')
    (s : String) : trimmed (pad ++ s ++ pad') = trimmed s := by
  obtain ⟨front, back, hfront, hback, hs⟩ := exists_pads s
  calc trimmed (pad ++ s ++ pad')
      = trimmed (pad ++ (front ++ trimmed s ++ back) ++ pad') := by rw [← hs]
    _ = trimmed (pad ++ front ++ trimmed s ++ (back ++ pad')) := by
        simp only [String.append_assoc]
    _ = trimmed s := trimmed_padded (trimmed_trimmed s) (hpad.append hfront) (hback.append hpad')

/-! ## What is left -/

/-- A text with a character that is not blank is not trimmed to nothing. -/
theorem trimmed_ne_empty {s : String} (h : ∃ c ∈ s.toList, isBlank c = false) : trimmed s ≠ "" := by
  obtain ⟨c, hc, hnot⟩ := h
  intro hempty
  have htrim : trim s.toList = [] := by rw [← toList_trimmed, hempty]; rfl
  rw [trim, trimRight, List.reverse_eq_nil_iff, List.dropWhile_eq_nil_iff] at htrim
  -- the character is dropped neither at the front nor at the end
  rw [← List.takeWhile_append_dropWhile (p := isBlank) (l := s.toList), List.mem_append] at hc
  rcases hc with hc | hc
  · rw [List.all_eq_true.1 List.all_takeWhile c hc] at hnot
    cases hnot
  · rw [htrim c (List.mem_reverse.2 hc)] at hnot
    cases hnot

/-- The end of a trimmed text is not blank. -/
theorem exists_not_blank_of_suffix {cs last : List Char} (hsuffix : last <:+ trim cs)
    (hne : last ≠ []) : ∃ c ∈ last, isBlank c = false := by
  obtain ⟨front, hfront⟩ := hsuffix
  have hback : (trimLeft cs).reverse.dropWhile isBlank = last.reverse ++ front.reverse := by
    rw [← List.reverse_append, hfront, trim, trimRight, List.reverse_reverse]
  have hsome : (trimLeft cs).reverse.dropWhile isBlank ≠ [] := by
    rw [hback]
    simp [hne]
  have hnot := List.head_dropWhile_not isBlank hsome
  refine ⟨_, ?_, hnot⟩
  simp only [hback, List.head_append_of_ne_nil (List.reverse_ne_nil_iff.2 hne)]
  exact List.mem_reverse.1 (List.head_mem _)

end OrgForest.Text
