import OrgForest.Filter.Token

/-!
# What the tokens of an expression are

The scanner goes through an expression character by character. What it finds is described here
without it, token by token: blanks are skipped, a quoted token goes from its quote to the next one
that is not escaped, and a word goes up to the next blank or to the end.

* `Filter.Quotes` — what stands between two quotes, and the text it is for;
* `Filter.Lexes` — the tokens of a text;
* `Filter.tokens?_eq_some_iff` — they are what the scanner finds;
* `Filter.scan_blank`, `Filter.scan_append_blank` — blanks around a text change nothing.
-/

namespace OrgForest.Filter

/-! ## Tokens without a scanner -/

/-- Characters between two quotes, and the text they are for: a backslash makes the next character
stand for itself. -/
inductive Quotes : List Char → List Char → Prop
  | nil : Quotes [] []
  | plain {c : Char} {inside text : List Char} : c ≠ '"' → c ≠ '\\' → Quotes inside text →
      Quotes (c :: inside) (c :: text)
  | escaped {c : Char} {inside text : List Char} : Quotes inside text →
      Quotes ('\\' :: c :: inside) (c :: text)

/-- No character is a blank. -/
def Solid (cs : List Char) : Prop := ∀ c ∈ cs, Text.isBlank c = false

/-- A text that is over or goes on with a blank. -/
def Apart (cs : List Char) : Prop := ∀ c ∈ cs.head?, Text.isBlank c = true

/-- The tokens of a text, from left to right. A token may follow a closing quote at once. -/
inductive Lexes : List Char → List Token → Prop
  | done : Lexes [] []
  | blank {c : Char} {rest : List Char} {ts : List Token} : Text.isBlank c = true → Lexes rest ts →
      Lexes (c :: rest) ts
  | quoted {inside text rest : List Char} {ts : List Token} : Quotes inside text → Lexes rest ts →
      Lexes ('"' :: (inside ++ '"' :: rest)) (.quoted (String.ofList text) :: ts)
  | word {c : Char} {cs rest : List Char} {ts : List Token} : c ≠ '"' → Solid (c :: cs) →
      Apart rest → Lexes rest ts →
      Lexes (c :: (cs ++ rest)) (.word (String.ofList (c :: cs)) :: ts)

/-! ## What the scanner finds -/

variable {cs read rest : List Char} {ts : List Token}

/-- A word is read up to a blank or the end. -/
theorem scan_word (hsolid : Solid cs) (hrest : Apart rest) :
    scan (.word read) (cs ++ rest) =
      (scan .outside rest).map (.word (collected (cs.reverse ++ read)) :: ·) := by
  induction cs generalizing read with
  | nil =>
    cases rest with
    | nil => rfl
    | cons c rest =>
      -- the blank belongs to what follows
      have hblank : Text.isBlank c = true := hrest c rfl
      rw [List.nil_append, scan, if_pos hblank, scan, if_pos hblank]
      rfl
  | cons c cs ih =>
    have hc : Text.isBlank c = false := hsolid c List.mem_cons_self
    rw [List.cons_append, scan, if_neg (by simp [hc]),
      ih fun c' hc' => hsolid c' (List.mem_cons_of_mem c hc'), List.reverse_cons,
      List.append_assoc]
    rfl

/-- A quoted token is read up to its closing quote. -/
theorem scan_quoted {inside text : List Char} (h : Quotes inside text) :
    scan (.quoted read) (inside ++ '"' :: rest) =
      (scan .outside rest).map (.quoted (collected (text.reverse ++ read)) :: ·) := by
  induction h generalizing read with
  | nil => rfl
  | plain hquote hescape _ ih =>
    rw [List.cons_append, scan, if_neg hquote, if_neg hescape, ih, List.reverse_cons,
      List.append_assoc]
    rfl
  | escaped _ ih =>
    rw [List.cons_append, List.cons_append, scan, if_neg (by decide), if_pos rfl, scan, ih,
      List.reverse_cons, List.append_assoc]
    rfl

/-- The tokens of a text are found. -/
theorem scan_of_lexes (h : Lexes cs ts) : scan .outside cs = some ts := by
  -- token by token; the scanner is outside again behind each of them
  induction h with
  | done => rfl
  | blank hc _ ih => rw [scan, if_pos hc, ih]
  | quoted hinside _ ih =>
    rw [scan, if_neg (by decide), if_pos rfl, scan_quoted hinside, ih]
    simp [collected]
  | @word c cs rest ts hquote hsolid hrest _ ih =>
    have hc : Text.isBlank c = false := hsolid c List.mem_cons_self
    rw [scan, if_neg (by simp [hc]), if_neg hquote,
      scan_word (fun c' hc' => hsolid c' (List.mem_cons_of_mem c hc')) hrest, ih]
    simp [collected]

/-- What the scanner has still to read, from where it stands. -/
def Reading.Leaves : Reading → List Char → List Token → Prop
  | .outside, cs, ts => Lexes cs ts
  | .word read, cs, ts => ∃ front rest ts', cs = front ++ rest ∧ Solid front ∧ Apart rest ∧
      Lexes rest ts' ∧ ts = .word (collected (front.reverse ++ read)) :: ts'
  | .quoted read, cs, ts => ∃ inside text rest ts', cs = inside ++ '"' :: rest ∧
      Quotes inside text ∧ Lexes rest ts' ∧
      ts = .quoted (collected (text.reverse ++ read)) :: ts'
  | .escaped read, cs, ts => ∃ c inside text rest ts', cs = c :: (inside ++ '"' :: rest) ∧
      Quotes inside text ∧ Lexes rest ts' ∧
      ts = .quoted (collected (text.reverse ++ c :: read)) :: ts'

/-- What is found are the tokens of the text. -/
theorem leaves_of_scan {r : Reading} (h : scan r cs = some ts) : r.Leaves cs ts := by
  -- character by character, so the lemma covers every place where the scanner may stand
  induction cs generalizing r ts with
  | nil =>
    cases r with
    | outside =>
      cases h
      exact .done
    | word read =>
      cases h
      exact ⟨[], [], [], rfl, by simp [Solid], by simp [Apart], .done, rfl⟩
    | quoted read => cases h
    | escaped read => cases h
  | cons c cs ih =>
    cases r with
    | outside =>
      rw [scan] at h
      split at h
      · next hblank => exact .blank hblank (ih h)
      · next hblank =>
        split at h
        · next hquote =>
          obtain ⟨inside, text, rest, ts', rfl, hinside, hrest, rfl⟩ := ih h
          -- nothing has been collected when the quote opens
          show Lexes (c :: (inside ++ '"' :: rest)) _
          rw [hquote]
          simpa [collected] using Lexes.quoted hinside hrest
        · next hquote =>
          obtain ⟨front, rest, ts', rfl, hsolid, hapart, hrest, rfl⟩ := ih h
          have hall : Solid (c :: front) := by
            simpa [Solid, hblank] using hsolid
          show Lexes (c :: (front ++ rest)) _
          simpa [collected] using Lexes.word hquote hall hapart hrest
    | word read =>
      rw [scan] at h
      split at h
      · next hblank =>
        obtain ⟨ts', hrest, rfl⟩ := Option.map_eq_some_iff.1 h
        exact ⟨[], c :: cs, ts', rfl, by simp [Solid], by simpa [Apart] using hblank,
          .blank hblank (ih hrest), rfl⟩
      · next hblank =>
        obtain ⟨front, rest, ts', rfl, hsolid, hapart, hrest, rfl⟩ := ih h
        exact ⟨c :: front, rest, ts', rfl, by simpa [Solid, hblank] using hsolid, hapart, hrest,
          by simp⟩
    | quoted read =>
      rw [scan] at h
      split at h
      · next hquote =>
        obtain ⟨ts', hrest, rfl⟩ := Option.map_eq_some_iff.1 h
        exact ⟨[], [], cs, ts', by rw [hquote]; rfl, .nil, ih hrest, rfl⟩
      · next hquote =>
        split at h
        · next hescape =>
          obtain ⟨c', inside, text, rest, ts', rfl, hinside, hrest, rfl⟩ := ih h
          exact ⟨c :: c' :: inside, c' :: text, rest, ts', rfl, hescape ▸ .escaped hinside, hrest,
            by simp⟩
        · next hescape =>
          obtain ⟨inside, text, rest, ts', rfl, hinside, hrest, rfl⟩ := ih h
          exact ⟨c :: inside, c :: text, rest, ts', rfl, .plain hquote hescape hinside, hrest,
            by simp⟩
    | escaped read =>
      rw [scan] at h
      obtain ⟨inside, text, rest, ts', rfl, hinside, hrest, rfl⟩ := ih h
      exact ⟨c, inside, text, rest, ts', rfl, hinside, hrest, rfl⟩

/-- The tokens of an expression are what is found, and an expression without any, because a quote
is left open, has none. -/
theorem tokens?_eq_some_iff {expression : String} :
    tokens? expression = some ts ↔ Lexes expression.toList ts :=
  ⟨leaves_of_scan, scan_of_lexes⟩

/-! ## Blanks around a text -/

variable {pad : List Char}

theorem scan_blank (hpad : ∀ c ∈ pad, Text.isBlank c = true) (cs : List Char) :
    scan .outside (pad ++ cs) = scan .outside cs := by
  induction pad with
  | nil => rfl
  | cons c pad ih =>
    rw [List.cons_append, scan, if_pos (hpad c List.mem_cons_self),
      ih fun c' hc' => hpad c' (List.mem_cons_of_mem c hc')]

/-- Blanks do not close a quote. -/
theorem scan_open (hpad : ∀ c ∈ pad, Text.isBlank c = true) (read : List Char) :
    scan (.quoted read) pad = none ∧ scan (.escaped read) pad = none := by
  induction pad generalizing read with
  | nil => exact ⟨rfl, rfl⟩
  | cons c pad ih =>
    have hblank := hpad c List.mem_cons_self
    have hrest := ih fun c' hc' => hpad c' (List.mem_cons_of_mem c hc')
    have hquote : c ≠ '"' := by
      rintro rfl
      cases hblank
    have hescape : c ≠ '\\' := by
      rintro rfl
      cases hblank
    -- after an escape as well the text goes on inside of the quotes
    rw [scan, if_neg hquote, if_neg hescape, scan]
    exact ⟨(hrest _).1, (hrest _).1⟩

/-- Blanks at the end of a text change nothing, wherever the scanner stands. -/
theorem scan_append_blank (hpad : ∀ c ∈ pad, Text.isBlank c = true) (r : Reading)
    (cs : List Char) : scan r (cs ++ pad) = scan r cs := by
  induction cs generalizing r with
  | nil =>
    rw [List.nil_append]
    cases r with
    | outside =>
      rw [← List.append_nil pad]
      exact scan_blank hpad []
    | word read =>
      -- a word ends at a blank or at the end, so it does with both
      have hapart : Apart pad := fun c hc => hpad c (List.mem_of_head? hc)
      rw [← List.nil_append pad, scan_word (by simp [Solid]) hapart, ← List.append_nil pad,
        scan_blank hpad]
      rfl
    | quoted read => exact (scan_open hpad read).1
    | escaped read => exact (scan_open hpad read).2
  | cons c cs ih =>
    rw [List.cons_append]
    cases r <;> simp only [scan, ih]

end OrgForest.Filter
