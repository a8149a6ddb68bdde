import OrgForest.Filter.Expression
import OrgForest.Proofs.Except
import OrgForest.Proofs.Filter.Token

/-!
# The clauses that tokens stand for

A clause is written as an attribute, an operator and a value, and clauses are put together with the
word `and`. Which clauses an expression has is told here from its tokens, without the parser: the
same attribute may have two names, operators and `and` may have letters of any case, and a value may
be quoted or not.

* `Filter.Attribute.Named`, `Filter.Operator.Named` — what a word names;
* `Filter.Spells` — the tokens of a clause, with what it asks and for which value;
* `Filter.Conjunction` — the tokens of clauses, and these clauses;
* `Filter.parse_eq_ok_iff` — the filter that an expression is read as.
-/

namespace OrgForest.Filter

/-! ## Clauses in writing -/

/-- What a word names: an attribute of the list, or a custom one under a key that is not empty. -/
inductive Attribute.Named : String → Attribute → Prop
  | known {word : String} {a : Attribute} : (word, a) ∈ Attribute.words → Named word a
  | custom {key : String} : key ≠ "" → Named ("attributes." ++ key) (.text (.custom key))

/-- What a word is for, in any case of its letters. -/
def Operator.Named (word : String) (o : Operator) : Prop := (Text.lower word, o) ∈ Operator.words

/-- The tokens that ask for an attribute with an operator and a value. With `pr` no value is
written, so it may be any. -/
inductive Spells : List Token → Attribute → Operator → String → Prop
  | present {word o value : String} {a : Attribute} : Attribute.Named word a →
      Operator.Named o .present → Spells [.word word, .word o] a .present value
  | valued {word o : String} {a : Attribute} {operator : Operator} {value : Token} :
      Attribute.Named word a → Operator.Named o operator → operator ≠ .present →
      Spells [.word word, .word o, value] a operator value.text

/-- The tokens of a clause. -/
def Clause.Spelled (c : Clause) (ts : List Token) : Prop :=
  ∃ a o value, Spells ts a o value ∧ readValue a o value = .ok c

/-- The tokens of one clause or more, with an `and` between them that is not quoted. -/
inductive Conjunction : List Token → List Clause → Prop
  | last {ts : List Token} {c : Clause} : c.Spelled ts → Conjunction ts [c]
  | more {ts rest : List Token} {c : Clause} {cs : List Clause} {word : String} :
      c.Spelled ts → Text.lower word = "and" → Conjunction rest cs →
      Conjunction (ts ++ .word word :: rest) (c :: cs)

variable {word expression : String} {ts rest : List Token} {c : Clause} {cs : List Clause}

/-! ## Words -/

/-- Searching a list for a key that stands there once finds its entry. -/
theorem find?_key {α β : Type} [BEq α] [LawfulBEq α] {l : List (α × β)} {e : α × β}
    (h : (l.map (·.1)).Nodup) {k : α} : l.find? (·.1 == k) = some e ↔ e ∈ l ∧ e.1 = k := by
  induction l with
  | nil => simp
  | cons x l ih =>
    obtain ⟨hx, hl⟩ := List.nodup_cons.1 h
    by_cases hk : x.1 = k
    · rw [List.find?_cons_of_pos (by simpa using hk), Option.some_inj]
      constructor
      · rintro rfl
        exact ⟨List.mem_cons_self, hk⟩
      · rintro ⟨hmem, he⟩
        rcases List.mem_cons.1 hmem with rfl | hmem
        · rfl
        · exact absurd (List.mem_map_of_mem (f := (·.1)) hmem) (by rwa [he, ← hk])
    · rw [List.find?_cons_of_neg (by simpa using hk), ih hl, List.mem_cons]
      constructor
      · rintro ⟨hmem, he⟩
        exact ⟨.inr hmem, he⟩
      · rintro ⟨rfl | hmem, he⟩
        · exact absurd he hk
        · exact ⟨hmem, he⟩

theorem toList_custom (key : String) :
    ("attributes." ++ key).toList = customMark ++ key.toList :=
  String.toList_append

theorem readAttribute_eq_ok {a : Attribute} :
    readAttribute word = .ok a ↔ Attribute.Named word a := by
  -- a word of the list never begins like a custom one, so the order of the two tests is the same
  have hplain : ∀ e ∈ Attribute.words, customMark.isPrefixOf e.1.toList = false := by decide
  have hkeys : (Attribute.words.map (·.1)).Nodup := by decide +kernel
  unfold readAttribute
  by_cases hcustom : customMark.isPrefixOf word.toList = true
  · rw [if_pos hcustom]
    have hprefix : customMark <+: word.toList := List.isPrefixOf_iff_prefix.1 hcustom
    obtain ⟨key, hkey⟩ := hprefix
    have hword : word = "attributes." ++ String.ofList key := by
      rw [← String.toList_inj, toList_custom, @String.toList_ofList key, hkey]
    rw [← hkey, List.drop_left]
    constructor
    · intro h
      split at h
      · cases h
      · next hne =>
        cases h
        rw [hword]
        refine .custom fun hempty => hne ?_
        simpa using hempty
    · intro h
      cases h with
      | known hmem =>
        have hother := hplain _ hmem
        rw [hcustom] at hother
        cases hother
      | @custom key' hne =>
        have hsame : String.ofList key = key' := by
          simpa [← String.toList_inj] using hword.symm
        have hchars : key ≠ [] := by
          rintro rfl
          exact hne hsame.symm
        split
        · exact absurd rfl hchars
        · rw [hsame]
  · rw [if_neg hcustom]
    constructor
    · intro h
      split at h
      · next e he =>
        cases h
        obtain ⟨hmem, rfl⟩ := (find?_key hkeys).1 he
        exact .known hmem
      · cases h
    · intro h
      cases h with
      | known hmem =>
        rw [(find?_key hkeys).2 ⟨hmem, rfl⟩]
      | @custom key hne =>
        have hprefix : customMark <+: ("attributes." ++ key).toList :=
          ⟨key.toList, (toList_custom key).symm⟩
        exact absurd (List.isPrefixOf_iff_prefix.2 hprefix) hcustom

theorem readOperator_eq_ok {o : Operator} : readOperator word = .ok o ↔ Operator.Named word o := by
  have hkeys : (Operator.words.map (·.1)).Nodup := by decide +kernel
  -- no word is listed for two operators
  unfold readOperator Operator.ofWord? Operator.Named
  constructor
  · intro h
    split at h
    · next o' ho =>
      cases h
      obtain ⟨e, he, rfl⟩ := Option.map_eq_some_iff.1 ho
      obtain ⟨hmem, heq⟩ := (find?_key hkeys).1 he
      rwa [← heq]
    · cases h
  · intro h
    rw [(find?_key hkeys).2 ⟨h, rfl⟩]
    rfl

theorem Attribute.Named.unique {word : String} {a b : Attribute} (h : Named word a)
    (h' : Named word b) : a = b := by
  rw [← readAttribute_eq_ok] at h h'
  exact Except.ok.inj (h.symm.trans h')

theorem Operator.Named.unique {word : String} {o o' : Operator} (h : Named word o)
    (h' : Named word o') : o = o' := by
  rw [← readOperator_eq_ok] at h h'
  exact Except.ok.inj (h.symm.trans h')

/-! ## One clause -/

theorem Spells.two_le {a : Attribute} {o : Operator} {value : String} (h : Spells ts a o value) :
    2 ≤ ts.length := by
  cases h <;> simp

/-- One clause is taken from the front exactly if it stands there. -/
theorem takeClause_eq_ok :
    takeClause expression ts = .ok (c, rest) ↔ ∃ front, ts = front ++ rest ∧ c.Spelled front := by
  constructor
  · -- a word, another one, and a value unless the operator does without
    intro h
    unfold takeClause at h
    split at h
    · next word rest₁ =>
      obtain ⟨a, ha, h⟩ := bind_eq_ok.1 h
      have hword := readAttribute_eq_ok.1 ha
      split at h
      · next o rest₂ _ =>
        obtain ⟨operator, ho, h⟩ := bind_eq_ok.1 h
        have hoperator := readOperator_eq_ok.1 ho
        split at h
        · next hpresent =>
          obtain ⟨rfl, rfl⟩ := Prod.mk.inj (pure_eq_ok.1 h)
          refine ⟨[.word word, .word o], rfl, a, .present, "", ?_, rfl⟩
          exact .present hword (hpresent ▸ hoperator)
        · next hvalued =>
          split at h
          · exact absurd h throw_eq_ok
          · next value rest₃ _ _ =>
            obtain ⟨c', hvalue, h⟩ := bind_eq_ok.1 h
            obtain ⟨rfl, rfl⟩ := Prod.mk.inj (pure_eq_ok.1 h)
            refine ⟨[.word word, .word o, value], rfl, a, operator, value.text, ?_, hvalue⟩
            exact .valued hword hoperator hvalued
      · exact absurd h throw_eq_ok
    · exact absurd h throw_eq_ok
  · rintro ⟨front, rfl, a, operator, value, hspells, hvalue⟩
    cases hspells with
    | present hword hoperator =>
      simp only [List.cons_append, List.nil_append, takeClause, bind_eq_ok]
      refine ⟨a, readAttribute_eq_ok.2 hword, .present, readOperator_eq_ok.2 hoperator, ?_⟩
      rw [if_pos rfl, pure_eq_ok]
      cases hvalue
      rfl
    | valued hword hoperator hvalued =>
      simp only [List.cons_append, List.nil_append, takeClause, bind_eq_ok]
      refine ⟨a, readAttribute_eq_ok.2 hword, operator, readOperator_eq_ok.2 hoperator, ?_⟩
      rw [if_neg hvalued, bind_eq_ok]
      exact ⟨c, hvalue, rfl⟩

/-! ## Clause after clause -/

theorem Clause.Spelled.two_le (h : c.Spelled ts) : 2 ≤ ts.length := by
  obtain ⟨a, o, value, hspells, -⟩ := h
  exact hspells.two_le

theorem Conjunction.two_le (h : Conjunction ts cs) : 2 ≤ ts.length := by
  cases h with
  | last hclause => exact hclause.two_le
  | more hclause =>
    have hfront := hclause.two_le
    rw [List.length_append]
    omega

/-- What the parser finds stands there. -/
theorem conjunction_of_take {fuel : Nat} (h : takeClauses expression fuel ts = .ok cs) :
    Conjunction ts cs := by
  -- on the rounds: each takes one clause and the word behind it
  induction fuel generalizing ts cs with
  | zero => exact absurd h throw_eq_ok
  | succ fuel ih =>
    rw [takeClauses, bind_eq_ok] at h
    obtain ⟨⟨c, rest⟩, htake, h⟩ := h
    obtain ⟨front, rfl, hclause⟩ := takeClause_eq_ok.1 htake
    dsimp only at h
    split at h
    · obtain rfl := pure_eq_ok.1 h
      rw [List.append_nil]
      exact .last hclause
    · next word rest =>
      split at h
      · next hand =>
        split at h
        · exact absurd h throw_eq_ok
        · obtain ⟨cs', hrest, h⟩ := bind_eq_ok.1 h
          obtain rfl := pure_eq_ok.1 h
          exact .more hclause hand (ih hrest)
      · exact absurd h throw_eq_ok
    · exact absurd h throw_eq_ok

/-- Clauses are found, with as many rounds as there are tokens. -/
theorem takeClauses_of_conjunction (h : Conjunction ts cs) {fuel : Nat} (hfuel : ts.length ≤ fuel) :
    takeClauses expression fuel ts = .ok cs := by
  -- on the clauses: none is without tokens, so there are rounds enough for those behind it
  induction h generalizing fuel with
  | @last ts c hclause =>
    have htwo := hclause.two_le
    obtain ⟨fuel, rfl⟩ : ∃ n, fuel = n + 1 := ⟨fuel - 1, by omega⟩
    rw [takeClauses, bind_eq_ok]
    exact ⟨_, takeClause_eq_ok.2 ⟨ts, (List.append_nil ts).symm, hclause⟩, rfl⟩
  | @more ts rest c cs word hclause hand hclauses ih =>
    have htwo := hclauses.two_le
    rw [List.length_append, List.length_cons] at hfuel
    obtain ⟨fuel, rfl⟩ : ∃ n, fuel = n + 1 := ⟨fuel - 1, by omega⟩
    have hrounds : rest.length ≤ fuel := by omega
    -- another clause follows, so the word does not dangle
    have hmore : rest.isEmpty = false := by
      cases rest with
      | nil => simp at htwo
      | cons => rfl
    rw [takeClauses, bind_eq_ok]
    refine ⟨_, takeClause_eq_ok.2 ⟨ts, rfl, hclause⟩, ?_⟩
    dsimp only
    rw [if_pos hand, hmore, if_neg Bool.false_ne_true, bind_eq_ok]
    exact ⟨cs, ih hrounds, rfl⟩

/-- The filter of an expression: it has the clauses that the tokens stand for. -/
theorem parse_eq_ok_iff {f : Filter} : parse expression = .ok f ↔
    ∃ ts, Lexes expression.toList ts ∧ Conjunction ts f.clauses ∧
      f.source = Text.trimmed expression := by
  unfold parse
  constructor
  · intro h
    split at h
    · exact absurd h throw_eq_ok
    · exact absurd h throw_eq_ok
    · next ts _ htokens =>
      obtain ⟨cs, hclauses, h⟩ := bind_eq_ok.1 h
      obtain rfl := pure_eq_ok.1 h
      exact ⟨ts, tokens?_eq_some_iff.1 htokens, conjunction_of_take hclauses, rfl⟩
  · rintro ⟨ts, hlexes, hclauses, hsource⟩
    rw [tokens?_eq_some_iff.2 hlexes]
    split
    · next h => cases h
    · next h =>
      cases h
      have htwo := hclauses.two_le
      simp at htwo
    · next h =>
      cases h
      rw [bind_eq_ok]
      exact ⟨f.clauses, takeClauses_of_conjunction hclauses (Nat.le_refl _),
        pure_eq_ok.2 (by rw [← hsource])⟩

end OrgForest.Filter
