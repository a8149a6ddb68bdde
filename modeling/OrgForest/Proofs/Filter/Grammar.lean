import OrgForest.Directory.Listing
import OrgForest.Proofs.Filter.Clauses
import OrgForest.Proofs.Time.Strict

/-!
# The grammar of filter expressions

Which texts are filters is told here as a grammar over their tokens: clauses with the word `and`
between them, each clause an attribute, an operator and a value that fits. The parser accepts this
grammar and nothing else.

What counts as a timestamp is left open in the grammar. The parser goes by the strict form, in which
a minus sign may stand for the hyphen. With the form of RFC 3339 in its place the grammar would be
narrower than what is accepted.

* `Filter.IsClause`, `Filter.AreClauses` — the grammar;
* `Filter.Expression` — an expression and what its clauses ask;
* `Filter.parse_expression` — the parser accepts the grammar;
* `Filter.parse_beyond_rfc3339` — and it accepts more than timestamps of RFC 3339.
-/

namespace OrgForest.Filter

/-! ## The grammar -/

/-- Whether a value fits an attribute and an operator. A timestamp is only compared as a whole, and
with a timestamp. -/
def Fits (stamp : List Char → Prop) : Attribute → Operator → String → Prop
  | .text _, _, _ => True
  | .time _, .compare _, value => stamp value.toList
  | .time _, _, _ => False

/-- What a clause asks about, and how. -/
abbrev Ask : Type := Attribute × Operator

/-- The tokens of a clause. Its value may be quoted, its attribute and operator may not. -/
inductive IsClause (stamp : List Char → Prop) : List Token → Ask → Prop
  | present {word o : String} {a : Attribute} : Attribute.Named word a →
      Operator.Named o .present → IsClause stamp [.word word, .word o] (a, .present)
  | valued {word o : String} {a : Attribute} {operator : Operator} {value : Token} :
      Attribute.Named word a → Operator.Named o operator → operator ≠ .present →
      Fits stamp a operator value.text →
      IsClause stamp [.word word, .word o, value] (a, operator)

/-- The tokens of one clause or more, with an `and` between them that is not quoted. -/
inductive AreClauses (stamp : List Char → Prop) : List Token → List Ask → Prop
  | last {ts : List Token} {ask : Ask} : IsClause stamp ts ask → AreClauses stamp ts [ask]
  | more {ts rest : List Token} {ask : Ask} {asks : List Ask} {word : String} :
      IsClause stamp ts ask → Text.lower word = "and" → AreClauses stamp rest asks →
      AreClauses stamp (ts ++ .word word :: rest) (ask :: asks)

/-- An expression, and what its clauses ask from left to right. -/
def Expression (stamp : List Char → Prop) (expression : String) (asks : List Ask) : Prop :=
  ∃ ts, Lexes expression.toList ts ∧ AreClauses stamp ts asks

/-- What a clause asks about, and how. -/
def Clause.ask (c : Clause) : Ask := (c.subject, c.operator)

end Filter

/-- What the clauses of a filter ask. -/
def Filter.asks (f : Filter) : List Filter.Ask := f.clauses.map (·.ask)

namespace Filter

variable {stamp : List Char → Prop} {word value expression : String} {ts rest : List Token}

/-! ## From values to their forms -/

/-- The clause of a value that fits. -/
theorem exists_readValue_iff {a : Attribute} {o : Operator} (ho : o ≠ .present) :
    (∃ c, readValue a o value = .ok c) ↔ Fits (Time.Stamp Time.minusSigns) a o value := by
  cases a with
  | text a =>
    cases o with
    | present => exact absurd rfl ho
    | compare c => simp [readValue, Fits]
    | part p => simp [readValue, Fits]
  | time a =>
    cases o with
    | present => exact absurd rfl ho
    | part p => simp [readValue, Fits]
    | compare c =>
      have hstamp := Time.exists_readStrict_iff value.toList
      rw [Fits, ← hstamp, readValue]
      cases hread : Time.readStrict value.toList with
      | ok t => simp
      | error fault => simp

/-- A clause asks what is written. -/
theorem ask_of_readValue {a : Attribute} {o : Operator} {c : Clause}
    (h : readValue a o value = .ok c) : c.ask = (a, o) := by
  unfold readValue at h
  split at h
  · cases h
    rfl
  · cases h
    rfl
  · cases h
    rfl
  · cases h
  · split at h
    · cases h
      rfl
    · cases h

theorem isClause_iff {ask : Ask} : IsClause (Time.Stamp Time.minusSigns) ts ask ↔
    ∃ c : Clause, c.Spelled ts ∧ c.ask = ask := by
  constructor
  · rintro (⟨hword, hoperator⟩ | ⟨hword, hoperator, hvalued, hfits⟩)
    · exact ⟨.present _, ⟨_, _, "", .present hword hoperator, rfl⟩, rfl⟩
    · obtain ⟨c, hc⟩ := (exists_readValue_iff hvalued).2 hfits
      exact ⟨c, ⟨_, _, _, .valued hword hoperator hvalued, hc⟩, ask_of_readValue hc⟩
  · rintro ⟨c, ⟨a, o, value, hspells, hc⟩, rfl⟩
    rw [ask_of_readValue hc]
    cases hspells with
    | present hword hoperator => exact .present hword hoperator
    | valued hword hoperator hvalued =>
      exact .valued hword hoperator hvalued ((exists_readValue_iff hvalued).1 ⟨c, hc⟩)

theorem areClauses_iff {asks : List Ask} : AreClauses (Time.Stamp Time.minusSigns) ts asks ↔
    ∃ cs, Conjunction ts cs ∧ cs.map (·.ask) = asks := by
  constructor
  · intro h
    induction h with
    | last hclause =>
      obtain ⟨c, hc, rfl⟩ := isClause_iff.1 hclause
      exact ⟨[c], .last hc, rfl⟩
    | more hclause hand _ ih =>
      obtain ⟨c, hc, rfl⟩ := isClause_iff.1 hclause
      obtain ⟨cs, hcs, rfl⟩ := ih
      exact ⟨c :: cs, .more hc hand hcs, rfl⟩
  · rintro ⟨cs, h, rfl⟩
    induction h with
    | last hc => exact .last (isClause_iff.2 ⟨_, hc, rfl⟩)
    | more hc hand _ ih => exact .more (isClause_iff.2 ⟨_, hc, rfl⟩) hand ih

theorem exists_parse_iff {asks : List Ask} : (∃ f, parse expression = .ok f ∧ f.asks = asks) ↔
    Expression (Time.Stamp Time.minusSigns) expression asks := by
  unfold Expression
  constructor
  · rintro ⟨f, h, rfl⟩
    obtain ⟨ts, hlexes, hclauses, -⟩ := parse_eq_ok_iff.1 h
    exact ⟨ts, hlexes, areClauses_iff.2 ⟨f.clauses, hclauses, rfl⟩⟩
  · rintro ⟨ts, hlexes, hclauses⟩
    obtain ⟨cs, hcs, hasks⟩ := areClauses_iff.1 hclauses
    exact ⟨⟨cs, Text.trimmed expression⟩, parse_eq_ok_iff.2 ⟨ts, hlexes, hcs, rfl⟩, hasks⟩

/-! ## The parser and the grammar -/

/-- **The grammar of filters.** A text is accepted exactly if its tokens are clauses with `and`
between them, every clause with a known attribute, an operator in any case and a value that fits,
and the filter asks what these clauses ask, in their order. Timestamps have the form of RFC 3339,
where U+2212 may stand for the hyphen of an offset. Any other text is a bad request, and a listing
that brings it, without blanks around it, ends with this fault before it asks for anything. -/
theorem parse_expression (expression : String) :
    (∀ asks, (∃ f, parse expression = .ok f ∧ f.asks = asks) ↔
      Expression (Time.Stamp Time.minusSigns) expression asks) ∧
    ((¬ ∃ asks, Expression (Time.Stamp Time.minusSigns) expression asks) →
      ∃ fault, parse expression = .error fault ∧
        ∀ {σ : Type} (env : Environment σ) (s : σ) (d : Directory) (room : Nat → Bool)
          (caller : Caller) (q : ListingQuery) (allow : BasicOrganization → Bool) (limit : Nat),
          d.pageSize q.limit = .ok limit → q.filter = some expression →
          Text.trimmed expression = expression → expression ≠ "" →
            (d.list room caller q allow).run env s =
              (.error (.badRequest (.filter fault)), s)) := by
  refine ⟨fun asks => exists_parse_iff, fun hother => ?_⟩
  cases hparse : parse expression with
  | ok f => exact absurd ⟨f.asks, exists_parse_iff.1 ⟨f, hparse, rfl⟩⟩ hother
  | error fault =>
    refine ⟨fault, rfl, fun env s d room caller q allow limit hlimit hfilter htrim hne => ?_⟩
    have hgiven : parseGiven q.filter = .error fault := by
      rw [hfilter, parseGiven, htrim, if_neg hne, hparse]
      rfl
    rw [Directory.list, hlimit, hgiven]
    rfl

/-- Two clauses: a quoted value that holds an `and`, and a leap second. -/
def twoClauses : String := "name co \"a and b\" AND meta.created GE 2016-12-31T23:59:60Z"

/-- The `pr` would be a value, and the quote is left open. -/
def openQuote : String := "id eq pr and \"name"

theorem parse_expression_twoClauses :
    Expression (Time.Stamp Time.minusSigns) twoClauses
      [(.text .name, .part .anywhere), (.time .created, .compare .greaterOrEqual)] ∧
    (¬ ∃ asks, Expression (Time.Stamp Time.minusSigns) openQuote asks) ∧
    ∃ fault, parse openQuote = .error fault := by
  have hopen : ¬ ∃ asks, Expression (Time.Stamp Time.minusSigns) openQuote asks := by
    rintro ⟨asks, hasks⟩
    obtain ⟨f, hf, -⟩ := ((parse_expression openQuote).1 asks).2 hasks
    exact absurd hf (by rintro ⟨⟩)
  refine ⟨((parse_expression twoClauses).1 _).1 ⟨_, rfl, rfl⟩, hopen, ?_⟩
  obtain ⟨fault, hfault, -⟩ := (parse_expression openQuote).2 hopen
  exact ⟨fault, hfault⟩

/-! ## Timestamps beyond RFC 3339 -/

/-- A comparison whose timestamp has the minus sign U+2212 in its offset. -/
def withMinusSign : String := "created gt 2024-01-01T00:00:00\u221205:00"

theorem IsClause.two_le {ask : Ask} (h : IsClause stamp ts ask) : 2 ≤ ts.length := by
  cases h <;> simp

theorem AreClauses.two_le {asks : List Ask} (h : AreClauses stamp ts asks) : 2 ≤ ts.length := by
  cases h with
  | last hclause => exact hclause.two_le
  | more hclause =>
    have hfront := hclause.two_le
    rw [List.length_append]
    omega

/-- A minus sign that RFC 3339 does not know is accepted: with timestamps as RFC 3339 has them the
grammar would refuse what the parser takes. -/
theorem parse_beyond_rfc3339 :
    ¬ ∀ expression asks, (∃ f, parse expression = .ok f ∧ f.asks = asks) ↔
      Expression Time.Rfc3339 expression asks := by
  intro hall
  have haccepted : ∃ f, parse withMinusSign = .ok f ∧
      f.asks = [(.time .created, .compare .greater)] := ⟨_, rfl, rfl⟩
  obtain ⟨ts, hlexes, hclauses⟩ := (hall _ _).1 haccepted
  have hts : ts = [.word "created", .word "gt", .word "2024-01-01T00:00:00\u221205:00"] := by
    have htokens := tokens?_eq_some_iff.2 hlexes
    exact (Option.some.inj htokens).symm
  -- three tokens are one clause, and its timestamp is not one of RFC 3339
  cases hclauses with
  | more hclause _ hrest =>
    have hfront := hclause.two_le
    have hback := hrest.two_le
    have hlength := congrArg List.length hts
    simp only [List.length_append, List.length_cons, List.length_nil] at hlength
    omega
  | last hclause =>
    cases hclause with
    | valued _ _ _ hfits =>
      obtain ⟨-, hts⟩ := List.cons.inj hts
      obtain ⟨-, hts⟩ := List.cons.inj hts
      obtain ⟨rfl, -⟩ := List.cons.inj hts
      have hmem : '\u2212' ∈ "2024-01-01T00:00:00\u221205:00".toList := by decide
      exact absurd (Time.Stamp.isAscii_or_mem hfits hmem) (by decide)

end Filter

end OrgForest
