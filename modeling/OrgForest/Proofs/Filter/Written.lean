import Mathlib.Data.List.Forall2
import OrgForest.Proofs.Filter.Grammar

/-!
# Clauses are read as they were written

A value is written in double quotes, with a backslash before every double quote and every backslash
in it. Whatever the value is, its end is then where it was put: clauses that are written one after
the other, with `and` between them, are read as these clauses.

* `Filter.quoted` — a value in writing;
* `Filter.Draft`, `Filter.inWriting` — clauses before they are written, and their expression;
* `Filter.Draft.Means` — the clause that a draft is for;
* `Filter.parse_written` — the expression is read as the clauses of its drafts.
-/

namespace OrgForest.Filter

/-! ## Writing -/

/-- The characters of a value between its quotes. -/
def escape : List Char → List Char
  | [] => []
  | c :: cs => if c = '"' ∨ c = '\\' then '\\' :: c :: escape cs else c :: escape cs

/-- A value in double quotes. -/
def quoted (value : String) : String := String.ofList ('"' :: (escape value.toList ++ ['"']))

/-- The word for an operator, in small letters. -/
def Operator.word : Operator → String
  | .compare .equal => "eq"
  | .compare .notEqual => "ne"
  | .compare .greater => "gt"
  | .compare .greaterOrEqual => "ge"
  | .compare .less => "lt"
  | .compare .lessOrEqual => "le"
  | .part .anywhere => "co"
  | .part .start => "sw"
  | .part .tail => "ew"
  | .present => "pr"

/-- A clause before it is written. With `pr` the value is left out. -/
structure Draft where
  subject : Attribute
  operator : Operator
  value : String
deriving DecidableEq

namespace Draft

/-- The value in writing, behind a blank, for an operator that takes one. -/
def writeValue (d : Draft) : String :=
  if d.operator = .present then "" else " " ++ quoted d.value

/-- A draft in writing. -/
def write (d : Draft) : String := d.subject.path ++ " " ++ d.operator.word ++ d.writeValue

/-- The clause that a draft is for. A status is compared in capitals, a timestamp as the instant
that its text is for. -/
inductive Means : Draft → Clause → Prop
  | present (a : Attribute) (value : String) : Means ⟨a, .present, value⟩ (.present a)
  | compareText (a : TextAttribute) (c : Comparison) (value : String) :
      Means ⟨.text a, .compare c, value⟩ (.compareText a c (textValue a value))
  | partOf (a : TextAttribute) (p : Part) (value : String) :
      Means ⟨.text a, .part p, value⟩ (.partOf a p (textValue a value))
  | compareTime (a : TimeAttribute) (c : Comparison) (value : String) (t : Timestamp) :
      Time.Denotes Time.minusSigns value.toList t →
      Means ⟨.time a, .compare c, value⟩ (.compareTime a c t)

end Draft

/-- The expression of some drafts. -/
def inWriting (ds : List Draft) : String := " and ".intercalate (ds.map (·.write))

/-- An attribute whose path is a word: a custom key is not empty and has no blank in it. -/
def Attribute.Writable : Attribute → Prop
  | .text (.custom key) => key ≠ "" ∧ Solid key.toList
  | _ => True

/-- What is asked of a draft: a path that is a word, and a value that fits. -/
structure Draft.Sound (d : Draft) : Prop where
  writable : d.subject.Writable
  fits : d.operator ≠ .present → Fits Time.Rfc3339 d.subject d.operator d.value

/-! ## Values -/

theorem Fits.imp {stamp stamp' : List Char → Prop} {a : Attribute} {o : Operator} {value : String}
    (h : Fits stamp a o value) (himp : stamp value.toList → stamp' value.toList) :
    Fits stamp' a o value := by
  cases a with
  | text a => trivial
  | time a =>
    cases o with
    | compare c => exact himp h
    | part p => cases h
    | present => cases h

theorem readValue_eq_ok_iff {a : Attribute} {o : Operator} {value : String} {c : Clause} :
    readValue a o value = .ok c ↔ Draft.Means ⟨a, o, value⟩ c := by
  constructor
  · intro h
    unfold readValue at h
    split at h
    · cases h
      exact .present a value
    · cases h
      exact .compareText _ _ value
    · cases h
      exact .partOf _ _ value
    · cases h
    · split at h
      · next hread =>
        cases h
        exact .compareTime _ _ value _ (Time.readStrict_eq_ok_iff.1 hread)
      · cases h
  · rintro (_ | _ | _ | ⟨a, c, value, t, hdenotes⟩)
    · cases a <;> rfl
    · rfl
    · rfl
    · rw [readValue, Time.readStrict_eq_ok_iff.2 hdenotes]

/-- A draft is for one clause at most. -/
theorem Draft.Means.unique : Relator.RightUnique Draft.Means := by
  intro d c c' h h'
  rw [← readValue_eq_ok_iff] at h h'
  exact Except.ok.inj (h.symm.trans h')

/-- A sound draft is for a clause. -/
theorem Draft.Sound.exists_means {d : Draft} (h : d.Sound) : ∃ c, d.Means c := by
  obtain ⟨a, o, value⟩ := d
  by_cases hpresent : o = .present
  · exact ⟨.present a, hpresent ▸ .present a value⟩
  · have hfits : Fits (Time.Stamp Time.minusSigns) a o value :=
      (h.fits hpresent).imp fun hstamp => hstamp.mono (by decide)
    obtain ⟨c, hc⟩ := (exists_readValue_iff hpresent).2 hfits
    exact ⟨c, readValue_eq_ok_iff.1 hc⟩

theorem exists_meant {ds : List Draft} (h : ∀ d ∈ ds, d.Sound) :
    ∃ cs, List.Forall₂ Draft.Means ds cs := by
  induction ds with
  | nil => exact ⟨[], .nil⟩
  | cons d ds ih =>
    obtain ⟨c, hc⟩ := (h d List.mem_cons_self).exists_means
    obtain ⟨cs, hcs⟩ := ih fun d' hd' => h d' (List.mem_cons_of_mem d hd')
    exact ⟨c :: cs, .cons hc hcs⟩

/-! ## Words and quoted values -/

variable {rest : List Char} {ts : List Token}

theorem quotes_escape (cs : List Char) : Quotes (escape cs) cs := by
  induction cs with
  | nil => exact .nil
  | cons c cs ih =>
    by_cases h : c = '"' ∨ c = '\\'
    · rw [escape, if_pos h]
      exact .escaped ih
    · rw [escape, if_neg h]
      rw [not_or] at h
      exact .plain h.1 h.2 ih

/-- A quoted value is one token, whatever stands behind it. -/
theorem lexes_quoted (value : String) (h : Lexes rest ts) :
    Lexes ((quoted value).toList ++ rest) (.quoted value :: ts) := by
  have hquoted := Lexes.quoted (quotes_escape value.toList) h
  rw [String.ofList_toList] at hquoted
  rwa [quoted, String.toList_ofList, List.cons_append, List.append_assoc]

/-- A text that is read as one word. -/
structure IsWord (word : String) : Prop where
  ne_empty : word ≠ ""
  solid : Solid word.toList
  not_quoted : word.toList.head? ≠ some '"'

instance (cs : List Char) : Decidable (Solid cs) :=
  decidable_of_iff (cs.all (!Text.isBlank ·) = true) (by simp [Solid])

instance (word : String) : Decidable (IsWord word) :=
  decidable_of_iff (word ≠ "" ∧ Solid word.toList ∧ word.toList.head? ≠ some '"')
    ⟨fun h => ⟨h.1, h.2.1, h.2.2⟩, fun h => ⟨h.1, h.2, h.3⟩⟩

/-- A word is one token up to a blank or the end. -/
theorem lexes_word {word : String} (hword : IsWord word) (hrest : Apart rest) (h : Lexes rest ts) :
    Lexes (word.toList ++ rest) (.word word :: ts) := by
  obtain ⟨hne, hsolid, hquote⟩ := hword
  cases hcs : word.toList with
  | nil => exact absurd (String.toList_eq_nil_iff.1 hcs) hne
  | cons c cs =>
    have hword : word = String.ofList (c :: cs) := by rw [← hcs, String.ofList_toList]
    rw [hcs] at hsolid hquote
    rw [hword]
    exact .word (fun hc => hquote (congrArg some hc)) hsolid hrest h

theorem apart_nil : Apart [] := by rintro c ⟨⟩

theorem apart_blank (rest : List Char) : Apart (' ' :: rest) := by
  rintro c ⟨⟩
  rfl

/-- A word with a blank behind it. -/
theorem lexes_word_blank {word : String} (hword : IsWord word) (h : Lexes rest ts) :
    Lexes (word.toList ++ ' ' :: rest) (.word word :: ts) :=
  lexes_word hword (apart_blank rest) (.blank rfl h)

/-- Only a word is read as one. -/
theorem Lexes.isWord {word : String} (h : Lexes cs ts)
    (hword : Token.word word ∈ ts) : IsWord word := by
  induction h with
  | done => cases hword
  | blank _ _ ih => exact ih hword
  | quoted _ _ ih =>
    rcases List.mem_cons.1 hword with hhead | hrest
    · cases hhead
    · exact ih hrest
  | @word c cs rest ts hquote hsolid _ _ ih =>
    rcases List.mem_cons.1 hword with hhead | hrest
    · cases hhead
      refine ⟨by simp, ?_, ?_⟩
      · rwa [String.toList_ofList]
      · rw [String.toList_ofList, List.head?_cons, Ne, Option.some_inj]
        exact hquote
    · exact ih hrest

/-! ## Names -/

/-- Every attribute but a custom one is in the list of names. -/
theorem Attribute.custom_or_mem_words (a : Attribute) :
    (∃ key, a = .text (.custom key)) ∨ (a.path, a) ∈ Attribute.words := by
  -- attribute by attribute, since the list holds each of them under its path
  match a with
  | .text (.custom key) => exact .inl ⟨key, rfl⟩
  | .text .id => exact .inr (by decide)
  | .text .name => exact .inr (by decide)
  | .text .description => exact .inr (by decide)
  | .text .status => exact .inr (by decide)
  | .text .parentId => exact .inr (by decide)
  | .time .created => exact .inr (by decide)
  | .time .lastModified => exact .inr (by decide)

theorem Attribute.Writable.named {a : Attribute} (h : a.Writable) : Attribute.Named a.path a := by
  rcases a.custom_or_mem_words with ⟨key, rfl⟩ | hmem
  · exact .custom h.1
  · exact .known hmem

theorem isWord_custom {key : String} (h : Solid key.toList) : IsWord ("attributes." ++ key) := by
  have hmark : Solid customMark := by decide
  refine ⟨by simp, fun c hc => ?_, ?_⟩
  · rw [toList_custom, List.mem_append] at hc
    exact hc.elim (hmark c) (h c)
  · -- what is in front of the key begins with a letter
    rw [toList_custom]
    show some 'a' ≠ some '"'
    decide

theorem Attribute.Writable.isWord {a : Attribute} (h : a.Writable) : IsWord a.path := by
  have hlist : ∀ e ∈ Attribute.words, IsWord e.1 := by decide
  rcases a.custom_or_mem_words with ⟨key, rfl⟩ | hmem
  · exact isWord_custom h.2
  · exact hlist _ hmem

/-- What a word names can be written. -/
theorem Attribute.Named.writable {a : Attribute} {word : String} (h : Named word a)
    (hword : IsWord word) : a.Writable := by
  cases h with
  | known hmem =>
    -- no attribute of the list is a custom one, and only of these anything is asked
    have hlist : ∀ e ∈ Attribute.words, ∀ key, e.2 ≠ .text (.custom key) := by
      simp [Attribute.words]
    unfold Writable
    split
    · next key => exact absurd rfl (hlist _ hmem key)
    · trivial
  | custom hne =>
    refine ⟨hne, fun c hc => hword.solid c ?_⟩
    rw [toList_custom]
    exact List.mem_append_right _ hc

theorem Operator.mem_words (o : Operator) : (o.word, o) ∈ Operator.words := by
  rcases o with c | p | _
  · cases c <;> decide
  · cases p <;> decide
  · decide

theorem Operator.isWord_word (o : Operator) : IsWord o.word := by
  have hlist : ∀ e ∈ Operator.words, IsWord e.1 := by decide
  exact hlist _ o.mem_words

theorem Operator.named_word (o : Operator) : Operator.Named o.word o := by
  have hlower : ∀ e ∈ Operator.words, Text.lower e.1 = e.1 := by decide
  rw [Operator.Named, hlower _ o.mem_words]
  exact o.mem_words

/-! ## Drafts -/

namespace Draft

variable {d : Draft} {c : Clause}

/-- The tokens of a draft in writing. -/
def tokens (d : Draft) : List Token :=
  .word d.subject.path :: .word d.operator.word ::
    if d.operator = .present then [] else [.quoted d.value]

theorem spells_tokens (d : Draft) (hpath : d.subject.Writable) :
    Spells d.tokens d.subject d.operator d.value := by
  have hoperator := d.operator.named_word
  unfold tokens
  split
  · next hpresent =>
    rw [hpresent] at hoperator ⊢
    exact .present hpath.named hoperator
  · next hvalued => exact @Spells.valued _ _ _ _ (.quoted d.value) hpath.named hoperator hvalued

theorem Means.spelled (h : d.Means c) (hpath : d.subject.Writable) : c.Spelled d.tokens :=
  ⟨d.subject, d.operator, d.value, d.spells_tokens hpath, readValue_eq_ok_iff.2 h⟩

/-- The tokens of a draft are read up to a blank or the end. -/
theorem lexes_write (hpath : d.subject.Writable) (hrest : Apart rest) (h : Lexes rest ts) :
    Lexes (d.write.toList ++ rest) (d.tokens ++ ts) := by
  -- the value comes last and may be missing, and a blank goes before it
  have hvalue : Apart (d.writeValue.toList ++ rest) ∧ Lexes (d.writeValue.toList ++ rest)
      ((if d.operator = .present then [] else [.quoted d.value]) ++ ts) := by
    unfold writeValue
    split
    · exact ⟨hrest, h⟩
    · rw [String.toList_append]
      exact ⟨apart_blank _, .blank rfl (lexes_quoted d.value h)⟩
  have hoperator := lexes_word d.operator.isWord_word hvalue.1 hvalue.2
  have hsubject := lexes_word_blank hpath.isWord hoperator
  simpa [write, tokens] using hsubject

theorem lexes_whole (d : Draft) (hpath : d.subject.Writable) : Lexes d.write.toList d.tokens := by
  simpa using lexes_write hpath apart_nil .done

end Draft

/-- An `and` between blanks is a word of its own. -/
theorem lexes_and (h : Lexes rest ts) : Lexes (" and ".toList ++ rest) (.word "and" :: ts) := by
  have hword : IsWord "and" := by decide
  exact .blank rfl (lexes_word_blank hword h)

/-- Drafts in writing have the tokens of the clauses that they are for. -/
theorem exists_conjunction {ds : List Draft} {cs : List Clause} (hne : ds ≠ [])
    (hpath : ∀ d ∈ ds, d.subject.Writable) (h : List.Forall₂ Draft.Means ds cs) :
    ∃ ts, Lexes (inWriting ds).toList ts ∧ Conjunction ts cs := by
  -- on the drafts: each one ends with the blank before the next `and`, or with the expression
  induction h with
  | nil => exact absurd rfl hne
  | @cons d c ds cs hmeans hrest ih =>
    have hd : d.subject.Writable := hpath d List.mem_cons_self
    cases hrest with
    | nil => exact ⟨d.tokens, d.lexes_whole hd, .last (hmeans.spelled hd)⟩
    | @cons d' c' ds cs hmeans' hrest =>
      obtain ⟨ts, hlexes, hclauses⟩ :=
        ih (by simp) fun d'' hd'' => hpath d'' (List.mem_cons_of_mem d hd'')
      have happart : Apart (" and ".toList ++ (inWriting (d' :: ds)).toList) := apart_blank _
      refine ⟨d.tokens ++ .word "and" :: ts, ?_, .more (hmeans.spelled hd) rfl hclauses⟩
      have hwhole := Draft.lexes_write hd happart (lexes_and hlexes)
      rwa [inWriting, String.toList_intercalate, List.map_cons, List.map_cons, List.map_cons,
        List.map_cons, List.intercalate_cons_cons, List.append_assoc, ← List.map_cons,
        ← List.map_cons, ← String.toList_intercalate]

/-- **Clauses are read as they were written.** Any drafts that are sound, one or more, are written
as an expression that is read as the clauses they are for, in their order, and as no others:
whatever quotes, backslashes, blanks and words there are in the values. -/
theorem parse_written (ds : List Draft) (hne : ds ≠ []) (hsound : ∀ d ∈ ds, d.Sound) :
    ∃ f, parse (inWriting ds) = .ok f ∧ ∀ cs, f.clauses = cs ↔ List.Forall₂ Draft.Means ds cs := by
  obtain ⟨cs, hcs⟩ := exists_meant hsound
  obtain ⟨ts, hlexes, hclauses⟩ := exists_conjunction hne (fun d hd => (hsound d hd).writable) hcs
  refine ⟨⟨cs, Text.trimmed (inWriting ds)⟩, parse_eq_ok_iff.2 ⟨ts, hlexes, hclauses, rfl⟩, ?_⟩
  intro cs'
  constructor
  · rintro rfl
    exact hcs
  · -- every draft is for one clause, so no other clauses are meant
    exact fun hcs' => Draft.Means.unique.forall₂ hcs hcs'

/-- Drafts with what may stand in the way of reading them: quotes, a backslash before the closing
quote, an `and` in a value and one as a key, an empty value, and a leap second. -/
def trickyDrafts : List Draft :=
  [⟨.text .name, .compare .equal, "a \"b\" and \\"⟩, ⟨.text (.custom "and"), .part .tail, ""⟩,
    ⟨.text .status, .compare .notEqual, "disabled"⟩,
    ⟨.time .created, .compare .less, "2016-12-31t18:59:60.5-05:00"⟩,
    ⟨.time .lastModified, .present, ""⟩]

theorem parse_written_tricky :
    inWriting trickyDrafts =
      "name eq \"a \\\"b\\\" and \\\\\" and attributes.and ew \"\" and status ne \"disabled\"" ++
        " and created lt \"2016-12-31t18:59:60.5-05:00\" and lastModified pr" ∧
    trickyDrafts ≠ [] ∧ (∀ d ∈ trickyDrafts, d.Sound) ∧
    ∃ f, parse (inWriting trickyDrafts) = .ok f ∧
      ∀ cs, f.clauses = cs ↔ List.Forall₂ Draft.Means trickyDrafts cs := by
  have hstamp : Time.Rfc3339 "2016-12-31t18:59:60.5-05:00".toList :=
    .mk 2016 12 31 18 59 60 't' ['.', '5'] "-05:00".toList (by decide) (by decide)
      (.inr (.inl rfl)) (by decide) (by decide) (by decide)
      (.digits ['5'] (by decide) (List.forall_mem_singleton.2 rfl))
      (.hours '-' 5 0 (.inr (by decide)) (by decide) (by decide))
  have hsound : ∀ d ∈ trickyDrafts, d.Sound := by
    intro d hd
    simp only [trickyDrafts, List.mem_cons, List.not_mem_nil, or_false] at hd
    rcases hd with rfl | rfl | rfl | rfl | rfl
    · exact ⟨trivial, fun _ => trivial⟩
    · exact ⟨⟨by decide, by decide⟩, fun _ => trivial⟩
    · exact ⟨trivial, fun _ => trivial⟩
    · exact ⟨trivial, fun _ => hstamp⟩
    · exact ⟨trivial, fun h => absurd rfl h⟩
  have hne : trickyDrafts ≠ [] := by decide
  exact ⟨by decide, hne, hsound, parse_written trickyDrafts hne hsound⟩

end OrgForest.Filter
