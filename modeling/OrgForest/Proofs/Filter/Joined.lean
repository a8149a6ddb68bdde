import OrgForest.Proofs.Filter.Written
import OrgForest.Proofs.Text.Trim

/-!
# Joined expressions

Two expressions with `and` between them make one. That is safe because an expression that is read
leaves no quote open and ends no token in the middle: the blank in front of the `and` ends its last
word, and is outside of its last quoted value. Blanks around an expression are outside of all tokens
for the same reason, so they may be put there or dropped.

* `Filter.Lexes.append`, `Filter.Conjunction.append` — tokens and clauses across a seam;
* `Filter.Reads` — what an expression is read as, on its own or where it may be left out;
* `Filter.expressions_join` — joined, printed and padded expressions.
-/

namespace OrgForest.Filter

variable {cs rest : List Char} {ts ts' : List Token}

/-! ## Across a seam -/

theorem Apart.append (h : Apart cs) (hrest : Apart rest) : Apart (cs ++ rest) := by
  cases cs with
  | nil => exact hrest
  | cons c cs => exact h

/-- The tokens of a text with a blank behind it are its own tokens, and then those of the rest. -/
theorem Lexes.append (h : Lexes cs ts) (hapart : Apart rest) (hrest : Lexes rest ts') :
    Lexes (cs ++ rest) (ts ++ ts') := by
  -- token by token; only the last word touches the rest, and the blank keeps them apart
  induction h with
  | done => exact hrest
  | blank hc _ ih => exact .blank hc ih
  | quoted hinside _ ih =>
    rw [List.cons_append, List.append_assoc]
    exact .quoted hinside ih
  | word hquote hsolid hword _ ih =>
    rw [List.cons_append, List.append_assoc]
    exact .word hquote hsolid (hword.append hapart) ih

theorem Conjunction.append {clauses clauses' : List Clause} {word : String}
    (h : Conjunction ts clauses) (hand : Text.lower word = "and")
    (h' : Conjunction ts' clauses') :
    Conjunction (ts ++ .word word :: ts') (clauses ++ clauses') := by
  -- clause by clause; it is the last one that the word stands behind
  induction h with
  | last hclause => exact .more hclause hand h'
  | more hclause hand' _ ih =>
    rw [List.append_assoc]
    exact .more hclause hand' ih

/-! ## Blanks around -/

theorem tokens?_surrounded {pad pad' : String} (hpad : Text.Blank pad) (hpad' : Text.Blank pad')
    (e : String) : tokens? (pad ++ e ++ pad') = tokens? e := by
  rw [tokens?, String.toList_append, String.toList_append, scan_append_blank hpad',
    scan_blank hpad]
  rfl

theorem tokens?_trimmed (e : String) : tokens? (Text.trimmed e) = tokens? e := by
  obtain ⟨pad, pad', hpad, hpad', he⟩ := Text.exists_pads e
  have hsame := tokens?_surrounded hpad hpad' (Text.trimmed e)
  rw [← he] at hsame
  exact hsame.symm

/-- Expressions of the same tokens and the same text between blanks are read as one filter. -/
theorem parse_of_same {e e' : String} {f : Filter} (h : parse e = .ok f)
    (htokens : tokens? e' = tokens? e) (hsource : Text.trimmed e' = Text.trimmed e) :
    parse e' = .ok f := by
  obtain ⟨ts, hlexes, hclauses, hf⟩ := parse_eq_ok_iff.1 h
  refine parse_eq_ok_iff.2 ⟨ts, ?_, hclauses, hf.trans hsource.symm⟩
  rw [← tokens?_eq_some_iff, htokens]
  exact tokens?_eq_some_iff.2 hlexes

theorem parse_trimmed {e : String} {f : Filter} (h : parse e = .ok f) :
    parse (Text.trimmed e) = .ok f :=
  parse_of_same h (tokens?_trimmed e) (Text.trimmed_trimmed e)

/-! ## Expressions -/

/-- An expression is read as a filter, on its own and where it may be left out. -/
structure Reads (e : String) (f : Filter) : Prop where
  parse : parse e = .ok f
  given : parseGiven (some e) = .ok (some f)

/-- What is read as a filter is not blank, so it does not count as left out. -/
theorem Reads.of_parse {e : String} {f : Filter} (h : Filter.parse e = .ok f) : Reads e f := by
  have htrimmed := parse_trimmed h
  have hne : Text.trimmed e ≠ "" := by
    intro hempty
    rw [hempty] at htrimmed
    cases htrimmed
  refine ⟨h, ?_⟩
  rw [parseGiven, if_neg hne, htrimmed]
  rfl

/-- Two expressions with `and` between them have the clauses of both. -/
theorem parse_join {e e' : String} {f f' : Filter} (h : parse e = .ok f) (h' : parse e' = .ok f') :
    parse (e ++ " and " ++ e') =
      .ok ⟨f.clauses ++ f'.clauses, Text.trimmed (e ++ " and " ++ e')⟩ := by
  obtain ⟨ts, hlexes, hclauses, -⟩ := parse_eq_ok_iff.1 h
  obtain ⟨ts', hlexes', hclauses', -⟩ := parse_eq_ok_iff.1 h'
  refine parse_eq_ok_iff.2 ⟨ts ++ .word "and" :: ts', ?_, hclauses.append rfl hclauses', rfl⟩
  have happart : Apart (" and ".toList ++ e'.toList) := apart_blank _
  rw [String.append_assoc, String.toList_append, String.toList_append]
  exact hlexes.append happart (lexes_and hlexes')

/-- **Expressions are put together as their filters are, and printed as they are read.** Whatever
two expressions are read as, with `and` between them they are read as one filter: its clauses are
those of the first and then those of the second, and an organization passes it if it passes both.
What a filter is printed as is read as the same filter again, and so is its expression with blanks
around it. None of these texts counts as left out. -/
theorem expressions_join {e e' : String} {f f' : Filter} (h : parse e = .ok f)
    (h' : parse e' = .ok f') :
    (∃ both, Reads (e ++ " and " ++ e') both ∧ both.clauses = f.clauses ++ f'.clauses ∧
      ∀ o, both.holds o = true ↔ f.holds o = true ∧ f'.holds o = true) ∧
    Reads f.source f ∧
    ∀ pad pad', Text.Blank pad → Text.Blank pad' → Reads (pad ++ e ++ pad') f := by
  have hsource : f.source = Text.trimmed e := by
    obtain ⟨-, -, -, hsource⟩ := parse_eq_ok_iff.1 h
    exact hsource
  refine ⟨⟨_, .of_parse (parse_join h h'), rfl, fun o => ?_⟩, ?_, fun pad pad' hpad hpad' => ?_⟩
  · rw [holds, List.all_append, Bool.and_eq_true]
    rfl
  · rw [hsource]
    exact .of_parse (parse_trimmed h)
  · exact .of_parse (parse_of_same h (tokens?_surrounded hpad hpad' e)
      (Text.trimmed_surrounded hpad hpad' e))

/-- A quoted value that ends in an `and` and a quote, and a word at the end of the expression. -/
theorem expressions_join_quotedAnd :
    let e := "name eq \" and \\\"\""
    let e' := "status ne disabled"
    let f : Filter := ⟨[.compareText .name .equal " and \""], e⟩
    let f' : Filter := ⟨[.compareText .status .notEqual "DISABLED"], e'⟩
    parse e = .ok f ∧ parse e' = .ok f' ∧
      (∃ both, Reads "status ne disabled and name eq \" and \\\"\"" both ∧
        both.clauses = f'.clauses ++ f.clauses ∧
        ∀ o, both.holds o = true ↔ f'.holds o = true ∧ f.holds o = true) ∧
      Reads e' f' ∧
      ∀ pad pad', Text.Blank pad → Text.Blank pad' → Reads (pad ++ e' ++ pad') f' := by
  intro e e' f f'
  have hf : parse e = .ok f := toOption_eq_some.1 (by decide +kernel)
  have hf' : parse e' = .ok f' := toOption_eq_some.1 (by decide +kernel)
  exact ⟨hf, hf', expressions_join hf' hf⟩

end OrgForest.Filter
