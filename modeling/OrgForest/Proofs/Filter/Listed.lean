import OrgForest.Proofs.Filter.Written
import OrgForest.Proofs.Listing.Order
import OrgForest.Proofs.Organization.Json

/-!
# Filters from values that are shown, and the order of a listing

What is shown of an organization can be put into a filter: its creation time as it is written, and
its name in quotes. A comparison with such a value is read back, and it holds of just those
organizations that stand there in a listing, before the ids are looked at.

* `SortKey.against` — a comparison with what an organization is sorted by;
* `SortKey.AsListed` — filters that agree with the order of a listing;
* `Filter.comparisons_as_listed` — those that are read from these comparisons do.
-/

namespace OrgForest

open OrgForest.Filter (Comparison Operator)

/-- The comparison that holds of what comes later in a listing. -/
def SortOrder.later : SortOrder → Comparison
  | .ascending => .greater
  | .descending => .less

namespace SortKey

/-- The attribute that a listing is sorted by. -/
def subject : SortKey → Filter.Attribute
  | .created => .time .created
  | .name => .text .name

/-- What an organization is sorted by, as a value in an expression. -/
def shown (key : SortKey) (b : Organization) : String :=
  match key with
  | .created => b.created.text
  | .name => Filter.quoted b.name

/-- A comparison with what an organization is sorted by. -/
def against (key : SortKey) (c : Comparison) (b : Organization) : String :=
  key.text ++ " " ++ (Operator.compare c).word ++ " " ++ key.shown b

/-- Filters that compare an organization with another one agree with the order of a listing. -/
structure AsListed (key : SortKey) (a b : Organization) (f : Comparison → Filter) : Prop where
  /-- The filters are read from what is shown of the other one. -/
  reads (c : Comparison) : Filter.parse (key.against c b) = .ok (f c)
  /-- They hold by the order of the two sort values. -/
  holds (c : Comparison) : (f c).holds a =
    c.holds (compare (Position.of key a).value (Position.of key b).value)
  /-- How the two stand to each other, where the ids decide between equals. -/
  compareIn (order : SortOrder) : Organization.compareIn key order a b = order.apply
    (if (f .less).holds a then .lt else if (f .greater).holds a then .gt else compare a.id b.id)
  /-- Whether the one comes behind the other. -/
  standsPast (order : SortOrder) :
    Organization.standsPast (.of key b) key order a = true ↔ (f order.later).holds a = true ∨
      ((f .equal).holds a = true ∧ order.apply (compare b.id a.id) = .lt)

end SortKey

namespace Filter

/-! ## Timestamps are words -/

/-- A character that may stand anywhere in a word. -/
def IsPlain (c : Char) : Prop := Text.isBlank c = false ∧ c ≠ '"'

instance : DecidablePred IsPlain := fun _ => inferInstanceAs (Decidable (_ ∧ _))

/-- Characters that may stand anywhere in a word. -/
def Plain (cs : List Char) : Prop := ∀ c ∈ cs, IsPlain c

theorem plain_nil : Plain [] := nofun

theorem plain_cons {c : Char} {cs : List Char} : Plain (c :: cs) ↔ IsPlain c ∧ Plain cs :=
  List.forall_mem_cons

theorem plain_append {cs cs' : List Char} : Plain (cs ++ cs') ↔ Plain cs ∧ Plain cs' :=
  List.forall_mem_append

theorem plain_padded (width n : Nat) : Plain (Text.padded width n) := by
  intro c hc
  obtain ⟨ds, hrun, -⟩ := Text.run_padded width n
  obtain ⟨d, hd⟩ := hrun.exists_digit hc
  refine ⟨Text.isBlank_digit hd, ?_⟩
  -- a quote is no digit
  rintro rfl
  cases hd

theorem plain_year (y : Int) : Plain (Time.writeYear y) := by
  have hsigns : IsPlain '-' ∧ IsPlain '+' := by decide
  unfold Time.writeYear
  split
  · exact plain_padded 4 _
  · split
    · exact plain_cons.2 ⟨hsigns.1, plain_padded 4 _⟩
    · exact plain_cons.2 ⟨hsigns.2, plain_padded 4 _⟩

theorem plain_fraction (n : Nat) : Plain (Time.writeFraction n) := by
  have hpoint : IsPlain '.' := by decide
  unfold Time.writeFraction
  split
  · exact plain_nil
  · split
    · exact plain_cons.2 ⟨hpoint, plain_padded 3 _⟩
    · split
      · exact plain_cons.2 ⟨hpoint, plain_padded 6 _⟩
      · exact plain_cons.2 ⟨hpoint, plain_padded 9 _⟩

theorem plain_timestamp (t : Timestamp) : Plain t.write := by
  have hmarks : IsPlain '-' ∧ IsPlain 'T' ∧ IsPlain ':' ∧ IsPlain 'Z' := by decide
  unfold Timestamp.write Time.Date.write
  simp only [plain_append, plain_cons, plain_nil, plain_padded, plain_year, plain_fraction, hmarks,
    and_self]

theorem isWord_timestamp (t : Timestamp) : IsWord t.text := by
  have hplain : Plain t.text.toList := by
    rw [Timestamp.text, String.toList_ofList]
    exact plain_timestamp t
  refine ⟨?_, fun c hc => (hplain c hc).1, fun hquote => ?_⟩
  · rw [Ne, ← String.toList_eq_nil_iff, Timestamp.text, String.toList_ofList, Timestamp.write]
    simp
  · exact (hplain _ (List.mem_of_head? hquote)).2 rfl

/-! ## What is shown is read back -/

/-- What an organization is sorted by, as a token. -/
def sortToken (key : SortKey) (b : Organization) : Token :=
  match key with
  | .created => .word b.created.text
  | .name => .quoted b.name

/-- The clause that is read from a comparison with what an organization is sorted by. -/
def sortClause (key : SortKey) (c : Comparison) (b : Organization) : Clause :=
  match key with
  | .created => .compareTime .created c b.created.asRead
  | .name => .compareText .name c b.name

theorem lexes_shown (key : SortKey) (b : Organization) :
    Lexes (key.shown b).toList [sortToken key b] := by
  rw [← List.append_nil (key.shown b).toList]
  cases key with
  | created => exact lexes_word (isWord_timestamp b.created) apart_nil .done
  | name => exact lexes_quoted b.name .done

theorem lexes_against (key : SortKey) (c : Comparison) (b : Organization) :
    Lexes (key.against c b).toList
      [.word key.text, .word (Operator.compare c).word, sortToken key b] := by
  have hkey : IsWord key.text := by cases key <;> decide
  -- from the end on, with a blank in front of what has been put together
  have hoperator := lexes_word_blank (Operator.compare c).isWord_word (lexes_shown key b)
  have hwhole := lexes_word_blank hkey hoperator
  simpa [SortKey.against] using hwhole

theorem spelled_against (key : SortKey) (c : Comparison) (b : Organization)
    (hyear : key = .created → 0 ≤ b.created.date.year ∧ b.created.date.year ≤ 9999) :
    (sortClause key c b).Spelled
      [.word key.text, .word (Operator.compare c).word, sortToken key b] := by
  have hkey : Attribute.Named key.text key.subject := by
    cases key <;> exact .known (by decide)
  refine ⟨key.subject, .compare c, (sortToken key b).text, ?_, readValue_eq_ok_iff.2 ?_⟩
  · exact .valued hkey (Operator.compare c).named_word nofun
  · -- a creation time is read as the instant that its writing is for, a name as it is
    cases key with
    | created =>
      refine .compareTime .created c b.created.text b.created.asRead ?_
      rw [Timestamp.text, String.toList_ofList]
      exact Time.denotes_write (hyear rfl) Time.minusSigns
    | name => exact .compareText .name c b.name

theorem parse_against (key : SortKey) (c : Comparison) (b : Organization)
    (hyear : key = .created → 0 ≤ b.created.date.year ∧ b.created.date.year ≤ 9999) :
    parse (key.against c b) = .ok ⟨[sortClause key c b], Text.trimmed (key.against c b)⟩ :=
  parse_eq_ok_iff.2 ⟨_, lexes_against key c b, .last (spelled_against key c b hyear), rfl⟩

theorem holds_sortClause (key : SortKey) (c : Comparison) (a b : Organization) :
    (sortClause key c b).holds a =
      c.holds (compare (Position.of key a).value (Position.of key b.asRead).value) := by
  cases key <;> rfl

theorem against_asRead (key : SortKey) (c : Comparison) (b : Organization) :
    key.against c b.asRead = key.against c b := by
  have hshown : key.shown b.asRead = key.shown b := by
    cases key with
    | created => exact b.created.text_asRead
    | name => rfl
  rw [SortKey.against, SortKey.against, hshown]

/-- An organization stands where it is read to stand, if its creation time can be read. -/
theorem position_asRead {key : SortKey} {b : Organization}
    (h : key = .created → b.created.Legible) : Position.of key b.asRead = Position.of key b := by
  cases key with
  | created =>
    show (⟨.created b.created.asRead, b.id⟩ : Position) = ⟨.created b.created, b.id⟩
    rw [Timestamp.asRead_of_legible (h rfl)]
  | name => rfl

/-! ## The order of a listing -/

theorem compare_position (key : SortKey) (a b : Organization) :
    compare (Position.of key a) (Position.of key b) =
      (compare (Position.of key a).value (Position.of key b).value).then (compare a.id b.id) := by
  rw [← Position.of_id key a, ← Position.of_id key b]
  rfl

/-- Filters that hold by the order of the sort values agree with the order of a listing. -/
theorem asListed_of_holds {key : SortKey} {a b : Organization} {f : Comparison → Filter}
    (hreads : ∀ c, parse (key.against c b) = .ok (f c))
    (hholds : ∀ c, (f c).holds a =
      c.holds (compare (Position.of key a).value (Position.of key b).value)) :
    key.AsListed a b f := by
  refine ⟨hreads, hholds, fun order => ?_, fun order => ?_⟩
  · rw [Organization.compareIn, compare_position, hholds, hholds]
    cases compare (Position.of key a).value (Position.of key b).value <;> rfl
  · -- seen from the other one, the sort values are in the opposite order
    have hswap : compare (Position.of key b).value (Position.of key a).value =
        (compare (Position.of key a).value (Position.of key b).value).swap :=
      Std.OrientedOrd.eq_swap
    rw [Organization.standsPast, compare_position, hswap, hholds, hholds, beq_iff_eq]
    cases order <;> cases compare (Position.of key a).value (Position.of key b).value <;>
      simp [SortOrder.apply, SortOrder.later, Comparison.holds]

/-- **Filters and the order of a listing.** A comparison with what an organization is sorted by,
with its creation time as it is shown or with its name in quotes, is read as a filter. It holds by
the order of the sort values, and so together with the ids the filters tell how another organization
stands to this one in a listing, in either direction, and whether it comes behind it. A creation
time has to be of a year that is written with four digits and no sign. If it is that of a leap second
within a minute, then the filters are about the organization as it is read, which is shown alike. -/
theorem comparisons_as_listed (a b : Organization) (key : SortKey)
    (hyear : key = .created → 0 ≤ b.created.date.year ∧ b.created.date.year ≤ 9999) :
    ∃ f, (∀ c, key.against c b.asRead = key.against c b) ∧ key.AsListed a b.asRead f ∧
      ((key = .created → b.created.Legible) → key.AsListed a b f) := by
  let f (c : Comparison) : Filter := ⟨[sortClause key c b], Text.trimmed (key.against c b)⟩
  have hreads (c : Comparison) : parse (key.against c b) = .ok (f c) := parse_against key c b hyear
  have hholds (c : Comparison) : (f c).holds a =
      c.holds (compare (Position.of key a).value (Position.of key b.asRead).value) := by
    rw [Filter.holds, List.all_cons, List.all_nil, Bool.and_true, holds_sortClause]
  refine ⟨f, fun c => against_asRead key c b, ?_, fun hlegible => ?_⟩
  · refine asListed_of_holds (fun c => ?_) hholds
    rw [against_asRead]
    exact hreads c
  · refine asListed_of_holds hreads fun c => ?_
    rw [hholds, position_asRead hlegible]

/-- An organization of a leap second, with a name full of quotes and backslashes. -/
def quaint : Organization :=
  Organization.new ((Timestamp.make? 1483228799 1000000001).getD .epoch) "\"and\" \\"

theorem comparisons_as_listed_quaint :
    SortKey.created.against .less quaint = "created lt 2016-12-31T23:59:60.000000001Z" ∧
    SortKey.name.against .equal quaint = "name eq \"\\\"and\\\" \\\\\"" ∧
    (0 ≤ quaint.created.date.year ∧ quaint.created.date.year ≤ 9999) ∧ quaint.created.Legible ∧
    (∃ f, SortKey.created.AsListed default quaint f) ∧
    ∃ f, SortKey.name.AsListed default quaint f := by
  have hyear : 0 ≤ quaint.created.date.year ∧ quaint.created.date.year ≤ 9999 := by
    decide +kernel
  have hlegible : quaint.created.Legible := by decide +kernel
  obtain ⟨f, -, -, hcreated⟩ := comparisons_as_listed default quaint .created fun _ => hyear
  obtain ⟨f', -, -, hname⟩ := comparisons_as_listed default quaint .name nofun
  exact ⟨by decide +kernel, by decide, hyear, hlegible, ⟨f, hcreated fun _ => hlegible⟩,
    f', hname nofun⟩

/-- What is created after a leap second within a minute is not found by asking for it, if it is
created before the next second. -/
theorem not_greater_within_minute :
    let noon := Organization.new .withinMinute "Noon"
    let later := Organization.new .afterwards "Later"
    (0 ≤ noon.created.date.year ∧ noon.created.date.year ≤ 9999) ∧
      later.created.text = "2024-01-01T12:00:01.200Z" ∧
      SortKey.created.against .greater noon = "created gt 2024-01-01T12:00:01.500Z" ∧
      compare (Position.of .created later).value (Position.of .created noon).value = .gt ∧
      ∃ f, parse (SortKey.created.against .greater noon) = .ok f ∧ f.holds later = false := by
  intro noon later
  have hyear : 0 ≤ noon.created.date.year ∧ noon.created.date.year ≤ 9999 := by decide +kernel
  refine ⟨hyear, by decide +kernel, by decide +kernel, by decide, _,
    parse_against .created .greater noon fun _ => hyear, ?_⟩
  rw [Filter.holds, List.all_cons, List.all_nil, Bool.and_true, holds_sortClause]
  decide

end Filter

end OrgForest
