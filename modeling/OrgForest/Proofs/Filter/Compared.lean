import OrgForest.Proofs.Filter.Written

/-!
# What the clauses on one value say of each other

What an organization has for an attribute is a text, an instant or nothing, and a value in writing
is for a text or an instant. Every clause on an attribute and a value goes by where the one stands
to the other, so the operators fit together: of less, equal and greater one holds, unless the
organization has nothing, and then only a difference is found.

* `Filter.Value`, `Filter.Value.Before`, `Filter.ReadAs` — what is compared, and its order;
* `Filter.Single` — a filter of one clause, however it is spelled;
* `Filter.ComparisonLaws`, `Filter.PartLaws` — how the operators fit together;
* `Filter.comparisons_lawful` — they do, for every organization, attribute and value.
-/

namespace OrgForest.Filter

/-! ## Values and their order -/

/-- What an organization has for an attribute, or what a value in writing is for. -/
inductive Value where
  | text (s : String)
  | instant (t : Timestamp)
deriving DecidableEq

/-- What an organization has for the attribute. -/
def Attribute.value? (o : Organization) : Attribute → Option Value
  | .text a => (a.of o).map .text
  | .time a => some (.instant (a.of o))

/-- What a value in writing is for. A status is compared in capitals. -/
inductive ReadAs : Attribute → String → Value → Prop
  | text (a : TextAttribute) (value : String) : ReadAs (.text a) value (.text (textValue a value))
  | instant (a : TimeAttribute) (value : String) (t : Timestamp) :
      Time.Denotes Time.minusSigns value.toList t → ReadAs (.time a) value (.instant t)

/-- Texts by their code points, instants by their seconds and then by their nanoseconds, of which a
leap second has a billion more than the second before it. -/
inductive Value.Before : Value → Value → Prop
  | text {s s' : String} : s < s' → Before (.text s) (.text s')
  | second {t t' : Timestamp} : t.seconds < t'.seconds → Before (.instant t) (.instant t')
  | nano {t t' : Timestamp} : t.seconds = t'.seconds → t.nanos < t'.nanos →
      Before (.instant t) (.instant t')

/-- Where one value stands to another. -/
structure Value.Placed (x : Value) (ord : Ordering) (v : Value) : Prop where
  lt : ord = .lt ↔ x.Before v
  eq : ord = .eq ↔ x = v
  gt : ord = .gt ↔ v.Before x

/-- Where a part stands in a text. -/
def Part.Within : Part → List Char → List Char → Prop
  | .anywhere, part, whole => part <:+: whole
  | .start, part, whole => part <+: whole
  | .tail, part, whole => part <:+ whole

/-! ## Filters of one clause -/

/-- A filter that is read from the tokens of one clause, with the attribute and the operator in any
of their spellings and the value quoted or not. -/
def Single (a : Attribute) (operator : Operator) (value : String) (f : Filter) : Prop :=
  ∃ expression ts, Lexes expression.toList ts ∧ Spells ts a operator value ∧
    parse expression = .ok f

/-- How the comparisons of an attribute with one value fit together. -/
structure ComparisonLaws (o : Organization) (a : Attribute) (v : Value) (f : Comparison → Filter) :
    Prop where
  /-- The organization has just this value. -/
  equal : (f .equal).holds o = true ↔ a.value? o = some v
  /-- It has one before it. -/
  less : (f .less).holds o = true ↔ ∃ x, a.value? o = some x ∧ x.Before v
  /-- It has one after it. -/
  greater : (f .greater).holds o = true ↔ ∃ x, a.value? o = some x ∧ v.Before x
  /-- A difference is found where no equality is. -/
  notEqual : (f .notEqual).holds o = !(f .equal).holds o
  /-- Where there is a value, it is before the other one, the same or after it. -/
  one : a.value? o ≠ none →
    [Comparison.less, .equal, .greater].countP (fun c => (f c).holds o) = 1
  /-- The weak comparisons are put together from the others. -/
  lessOrEqual : (f .lessOrEqual).holds o = ((f .less).holds o || (f .equal).holds o)
  greaterOrEqual : (f .greaterOrEqual).holds o = ((f .greater).holds o || (f .equal).holds o)
  /-- Where there is none, only a difference is found. -/
  absent : a.value? o = none → ∀ c, c ≠ .notEqual → (f c).holds o = false

/-- How the searches for one part fit together. -/
structure PartLaws (o : Organization) (a : Attribute) (v : Value) (f : Part → Filter) : Prop where
  /-- The organization has a text with the part at this place. -/
  within (p : Part) : (f p).holds o = true ↔ ∃ whole part, a.value? o = some (.text whole) ∧
    v = .text part ∧ p.Within part.toList whole.toList
  /-- What stands at the start or at the end stands somewhere. -/
  anywhere : (f .start).holds o = true ∨ (f .tail).holds o = true → (f .anywhere).holds o = true
  /-- Where there is no text, no part of it is found. -/
  absent : a.value? o = none → ∀ p, (f p).holds o = false

variable {o : Organization} {a : Attribute} {operator : Operator} {value : String} {f : Filter}
  {ts : List Token} {v : Value}

/-! ## Orders -/

theorem Value.before_text_iff {s s' : String} :
    compare s s' = .lt ↔ Before (.text s) (.text s') := by
  have hcompare : compare s s' = .lt ↔ s < s' := compareOfLessAndEq_eq_lt
  rw [hcompare]
  exact ⟨.text, fun | .text h => h⟩

theorem Value.before_instant_iff {t t' : Timestamp} :
    compare t t' = .lt ↔ Before (.instant t) (.instant t') := by
  have hlex : compare t t' = (compare t.seconds t'.seconds).then (compare t.nanos t'.nanos) := rfl
  rw [hlex, Ordering.then_eq_lt, compare_lt_iff_lt, compare_eq_iff_eq, compare_lt_iff_lt]
  constructor
  · rintro (hseconds | ⟨hseconds, hnanos⟩)
    · exact .second hseconds
    · exact .nano hseconds hnanos
  · rintro (_ | hseconds | ⟨hseconds, hnanos⟩)
    · exact .inl hseconds
    · exact .inr ⟨hseconds, hnanos⟩

theorem Value.Placed.text (s s' : String) : Placed (.text s) (compare s s') (.text s') where
  lt := before_text_iff
  eq := by rw [Std.compare_eq_iff_eq, Value.text.injEq]
  gt := by rw [Std.OrientedCmp.gt_iff_lt, before_text_iff]

theorem Value.Placed.instant (t t' : Timestamp) :
    Placed (.instant t) (compare t t') (.instant t') where
  lt := before_instant_iff
  eq := by rw [Std.compare_eq_iff_eq, Value.instant.injEq]
  gt := by rw [Std.OrientedCmp.gt_iff_lt, before_instant_iff]

/-! ## Parts -/

theorem occursIn_iff {part whole : List Char} : occursIn part whole = true ↔ part <:+: whole := by
  induction whole with
  | nil => rw [occursIn, List.isEmpty_iff, List.infix_nil]
  | cons c cs ih =>
    rw [occursIn, Bool.or_eq_true, List.isPrefixOf_iff_prefix, ih, List.infix_cons_iff]

theorem Part.holds_iff (p : Part) {part whole : List Char} :
    p.holds part whole = true ↔ p.Within part whole := by
  cases p with
  | anywhere => exact occursIn_iff
  | start => exact List.isPrefixOf_iff_prefix
  | tail => exact List.isSuffixOf_iff_suffix

theorem Part.Within.anywhere {p : Part} {part whole : List Char} (h : p.Within part whole) :
    Part.anywhere.Within part whole := by
  cases p with
  | anywhere => exact h
  | start => exact List.IsPrefix.isInfix h
  | tail => exact List.IsSuffix.isInfix h

/-! ## The clause of a filter -/

/-- The tokens of a clause ask for one thing. -/
theorem Spells.means_of_spelled {c : Clause} (h : Spells ts a operator value) (hc : c.Spelled ts) :
    Draft.Means ⟨a, operator, value⟩ c := by
  obtain ⟨b, o, value', h', hvalue⟩ := hc
  rw [readValue_eq_ok_iff] at hvalue
  cases h with
  | present hword _ =>
    cases h' with
    | present hword' _ =>
      obtain rfl := hword.unique hword'
      cases hvalue
      exact .present _ _
  | valued hword hoperator _ =>
    cases h' with
    | valued hword' hoperator' _ =>
      obtain rfl := hword.unique hword'
      obtain rfl := hoperator.unique hoperator'
      exact hvalue

theorem Spells.length_le (h : Spells ts a operator value) : ts.length ≤ 3 := by
  cases h <;> simp

/-- A filter of one clause has the clause that is asked for. -/
theorem Single.exists_clause (h : Single a operator value f) :
    ∃ c, f.clauses = [c] ∧ Draft.Means ⟨a, operator, value⟩ c := by
  obtain ⟨expression, ts, hlexes, hspells, hparse⟩ := h
  obtain ⟨ts', hlexes', hclauses, -⟩ := parse_eq_ok_iff.1 hparse
  -- a text has its tokens in one way only
  obtain rfl : ts = ts' := by
    rw [← tokens?_eq_some_iff] at hlexes hlexes'
    exact Option.some.inj (hlexes.symm.trans hlexes')
  have hshort := hspells.length_le
  generalize f.clauses = cs at hclauses ⊢
  cases hclauses with
  | last hclause => exact ⟨_, rfl, hspells.means_of_spelled hclause⟩
  | more hclause _ hrest =>
    -- a second clause takes more tokens than there are
    have hfront := hclause.two_le
    have hback := hrest.two_le
    rw [List.length_append, List.length_cons] at hshort
    omega

theorem Single.holds_eq {c : Clause} (h : Single a operator value f)
    (hc : Draft.Means ⟨a, operator, value⟩ c) : f.holds o = c.holds o := by
  obtain ⟨c', hclauses, hc'⟩ := h.exists_clause
  obtain rfl := Draft.Means.unique hc hc'
  rw [Filter.holds, hclauses, List.all_cons, List.all_nil, Bool.and_true]

/-- What stands in a filter can be written. -/
theorem Single.writable (h : Single a operator value f) : a.Writable := by
  obtain ⟨expression, ts, hlexes, hspells, -⟩ := h
  cases hspells with
  | present hword _ => exact hword.writable (hlexes.isWord List.mem_cons_self)
  | valued hword _ _ => exact hword.writable (hlexes.isWord List.mem_cons_self)

/-- A draft in writing is read as a filter of its clause. -/
theorem Draft.Means.single {d : Draft} {c : Clause} (hc : d.Means c) (hpath : d.subject.Writable) :
    Single d.subject d.operator d.value ⟨[c], Text.trimmed d.write⟩ := by
  have hlexes := d.lexes_whole hpath
  have hclauses : Conjunction d.tokens [c] := .last (hc.spelled hpath)
  exact ⟨d.write, d.tokens, hlexes, d.spells_tokens hpath,
    parse_eq_ok_iff.2 ⟨d.tokens, hlexes, hclauses, rfl⟩⟩

/-! ## Comparisons -/

/-- Where one comparison is accepted, every other one is. -/
theorem Single.exists_compare {c : Comparison} (h : Single a (.compare c) value f)
    (c' : Comparison) : ∃ f', Single a (.compare c') value f' := by
  obtain ⟨clause, -, hmeans⟩ := h.exists_clause
  -- the value is read in the same way for all of them
  have hother : ∃ clause', Draft.Means ⟨a, .compare c', value⟩ clause' := by
    cases hmeans with
    | compareText b => exact ⟨_, .compareText b c' value⟩
    | compareTime b _ _ t hdenotes => exact ⟨_, .compareTime b c' value t hdenotes⟩
  obtain ⟨clause', hmeans'⟩ := hother
  exact ⟨_, hmeans'.single h.writable⟩

theorem Single.exists_readAs {c : Comparison} (h : Single a (.compare c) value f) :
    ∃ v, ReadAs a value v := by
  obtain ⟨clause, -, hmeans⟩ := h.exists_clause
  cases hmeans with
  | compareText b => exact ⟨_, .text b value⟩
  | compareTime b _ _ t hdenotes => exact ⟨_, .instant b value t hdenotes⟩

/-- Where an organization has a value, every comparison goes by where this is placed. -/
theorem ReadAs.exists_placed {x : Value} (hv : ReadAs a value v) (hx : a.value? o = some x) :
    ∃ ord, x.Placed ord v ∧
      ∀ c f, Single a (.compare c) value f → f.holds o = c.holds ord := by
  cases hv with
  | text b value =>
    obtain ⟨s, hs, rfl⟩ := Option.map_eq_some_iff.1 hx
    refine ⟨compare s (textValue b value), .text _ _, fun c f hf => ?_⟩
    rw [hf.holds_eq (.compareText b c value), Clause.holds, hs]
  | instant b value t hdenotes =>
    -- here there always is a value, and offsets are gone once it is read
    cases hx
    refine ⟨compare (b.of o) t, .instant _ _, fun c f hf => ?_⟩
    rw [hf.holds_eq (.compareTime b c value t hdenotes), Clause.holds]

theorem ReadAs.holds_absent {c : Comparison} (hv : ReadAs a value v) (hx : a.value? o = none)
    (hf : Single a (.compare c) value f) : f.holds o = (c == .notEqual) := by
  cases hv with
  | text b value =>
    have hs : b.of o = none := Option.map_eq_none_iff.1 hx
    rw [hf.holds_eq (.compareText b c value), Clause.holds, hs]
  | instant => cases hx

/-- Where an organization has nothing, only a difference is found. -/
theorem ReadAs.absentLaws {f : Comparison → Filter} (hv : ReadAs a value v)
    (hf : ∀ c, Single a (.compare c) value (f c)) (hx : a.value? o = none) :
    ComparisonLaws o a v f := by
  have hholds : ∀ c, (f c).holds o = (c == .notEqual) := fun c => hv.holds_absent hx (hf c)
  have hno : ∀ x, a.value? o ≠ some x := by simp [hx]
  -- the weak comparisons fail, too, so they are still put together from the others
  exact {
    equal := by simp [hholds, hno]
    less := by simp [hholds, hno]
    greater := by simp [hholds, hno]
    notEqual := by rw [hholds, hholds]; rfl
    one := fun h => absurd hx h
    lessOrEqual := by rw [hholds, hholds, hholds]; rfl
    greaterOrEqual := by rw [hholds, hholds, hholds]; rfl
    absent := fun _ c hc => by rw [hholds, beq_eq_false_iff_ne]; exact hc }

/-- Where it has a value, the comparisons go by where this is placed. -/
theorem ReadAs.presentLaws {x : Value} {f : Comparison → Filter} (hv : ReadAs a value v)
    (hf : ∀ c, Single a (.compare c) value (f c)) (hx : a.value? o = some x) :
    ComparisonLaws o a v f := by
  obtain ⟨ord, hplaced, hord⟩ := hv.exists_placed hx
  have hholds : ∀ c, (f c).holds o = c.holds ord := fun c => hord c (f c) (hf c)
  have hthe : ∀ p : Value → Prop, (∃ x', a.value? o = some x' ∧ p x') ↔ p x := by simp [hx]
  -- what is left is about the three orderings
  exact {
    equal := by rw [hholds, hx, Option.some_inj, ← hplaced.eq, Comparison.holds, beq_iff_eq]
    less := by rw [hholds, hthe, ← hplaced.lt, Comparison.holds, beq_iff_eq]
    greater := by rw [hholds, hthe, ← hplaced.gt, Comparison.holds, beq_iff_eq]
    notEqual := by rw [hholds, hholds]; rfl
    one := fun _ => by
      simp only [hholds]
      cases ord <;> rfl
    lessOrEqual := by
      rw [hholds, hholds, hholds]
      cases ord <;> rfl
    greaterOrEqual := by
      rw [hholds, hholds, hholds]
      cases ord <;> rfl
    absent := fun h => absurd (hx.symm.trans h) (Option.some_ne_none x) }

/-! ## Parts of texts -/

/-- A part is searched for in texts alone. -/
theorem Single.exists_part {p : Part} (h : Single a (.part p) value f) :
    ∃ b, a = .text b ∧ (f.holds o = true ↔
      ∃ s, b.of o = some s ∧ p.Within (textValue b value).toList s.toList) := by
  obtain ⟨clause, -, hmeans⟩ := h.exists_clause
  rw [h.holds_eq hmeans]
  cases hmeans with
  | partOf b =>
    refine ⟨b, rfl, ?_⟩
    rw [Clause.holds]
    cases b.of o with
    | none => simp
    | some s => simp [Part.holds_iff]

theorem partLaws {f : Part → Filter} (hf : ∀ p, Single a (.part p) value (f p)) :
    ∃ v, ReadAs a value v ∧ PartLaws o a v f := by
  obtain ⟨b, rfl, -⟩ := (hf .anywhere).exists_part (o := o)
  have hholds : ∀ p, (f p).holds o = true ↔
      ∃ s, b.of o = some s ∧ p.Within (textValue b value).toList s.toList := by
    intro p
    obtain ⟨b', hb, h⟩ := (hf p).exists_part (o := o)
    cases hb
    exact h
  refine ⟨_, .text b value, fun p => ?_, ?_, ?_⟩
  · rw [hholds]
    constructor
    · rintro ⟨s, hs, hwithin⟩
      exact ⟨s, _, by rw [Attribute.value?, hs]; rfl, rfl, hwithin⟩
    · rintro ⟨s, part, hs, hpart, hwithin⟩
      obtain ⟨_, hs', hsame⟩ := Option.map_eq_some_iff.1 hs
      cases hpart
      cases hsame
      exact ⟨s, hs', hwithin⟩
  · rw [hholds, hholds, hholds]
    rintro (⟨s, hs, hwithin⟩ | ⟨s, hs, hwithin⟩)
    · exact ⟨s, hs, hwithin.anywhere⟩
    · exact ⟨s, hs, hwithin.anywhere⟩
  · intro hnone p
    have hs : b.of o = none := Option.map_eq_none_iff.1 hnone
    rw [Bool.eq_false_iff, Ne, hholds, hs]
    rintro ⟨s, ⟨⟩, -⟩

/-! ## The laws -/

/-- **The clauses on one value agree.** For an organization, an attribute and a value in writing,
in whatever spelling the clauses are read: where one comparison is accepted all six are, and they
go by where what the organization has is placed to what the value is for. A difference is found
where no equality is. Of less, equal and greater exactly one holds of an organization that has a
value, and none of one that has none, and the weak comparisons are put together from them. A part
that is found at the start or at the end of a text is found somewhere in it. -/
theorem comparisons_lawful (o : Organization) (a : Attribute) (value : String) :
    ((∃ c f, Single a (.compare c) value f) → ∀ c, ∃ f, Single a (.compare c) value f) ∧
    (∀ f : Comparison → Filter, (∀ c, Single a (.compare c) value (f c)) →
      ∃ v, ReadAs a value v ∧ ComparisonLaws o a v f) ∧
    ∀ f : Part → Filter, (∀ p, Single a (.part p) value (f p)) →
      ∃ v, ReadAs a value v ∧ PartLaws o a v f := by
  refine ⟨fun ⟨c, f, h⟩ => h.exists_compare, fun f hf => ?_, fun f hf => partLaws hf⟩
  obtain ⟨v, hv⟩ := (hf .equal).exists_readAs
  refine ⟨v, hv, ?_⟩
  cases hx : a.value? o with
  | none => exact hv.absentLaws hf hx
  | some x => exact hv.presentLaws hf hx

/-- An organization of a leap second. -/
def ofLeap : Organization :=
  Organization.new ((Timestamp.make? 1483228799 1500000000).getD .epoch) "Acme"

/-- This leap second in writing, far from UTC. -/
def leapText : String := "2016-12-31T18:59:60.50-05:00"

theorem comparisons_lawful_leap : ∃ (f : Comparison → Filter) (g : Part → Filter),
    (∀ c, Single (.time .created) (.compare c) leapText (f c)) ∧
    (∃ v, ReadAs (.time .created) leapText v ∧ ComparisonLaws ofLeap (.time .created) v f) ∧
    (∀ p, Single (.text .status) (.part p) "tive" (g p)) ∧
    ∃ v, ReadAs (.text .status) "tive" v ∧ PartLaws ofLeap (.text .status) v g := by
  have hread : Time.readStrict leapText.toList = .ok ofLeap.created := by decide +kernel
  have hdenotes := Time.readStrict_eq_ok_iff.1 hread
  have hf (c : Comparison) :=
    (Draft.Means.compareTime .created c leapText _ hdenotes).single trivial
  have hg (p : Part) := (Draft.Means.partOf .status p "tive").single trivial
  exact ⟨_, _, hf, (comparisons_lawful ofLeap (.time .created) leapText).2.1 _ hf, hg,
    (comparisons_lawful ofLeap (.text .status) "tive").2.2 _ hg⟩

end OrgForest.Filter
