import OrgForest.Proofs.Filter.Compared

/-!
# Presence and the other operators

A clause with `pr` asks whether an organization has something for an attribute. Of texts it holds
where there is one that is not empty, so whatever passes another clause on the attribute passes this
one too, unless what it has is the empty text or the other clause asks for a difference. Of
timestamps it never holds, though every organization has them and passes comparisons with them.

* `Filter.Attribute.Filled` — an organization has something for an attribute;
* `Filter.present_agrees_iff` — `pr` agrees with this, and with the other operators, exactly for the
  attributes whose values are texts;
* `Filter.present_misses_created` — an organization that passes `eq` and fails `pr`.
-/

namespace OrgForest.Filter

/-- An organization has something for the attribute that is not the empty text. -/
def Attribute.Filled (o : Organization) (a : Attribute) : Prop :=
  ∃ x, a.value? o = some x ∧ x ≠ .text ""

variable {o : Organization} {a : Attribute} {operator : Operator} {value : String} {f : Filter}

theorem Single.present_text {b : TextAttribute} (h : Single (.text b) .present value f) :
    f.holds o = true ↔ (Attribute.text b).Filled o := by
  rw [h.holds_eq (.present (.text b) value), Clause.holds, Attribute.Filled, Attribute.value?]
  cases b.of o with
  | none => simp
  | some s => simp

theorem Single.present_time {b : TimeAttribute} (h : Single (.time b) .present value f) :
    f.holds o = false :=
  h.holds_eq (.present (.time b) value)

theorem Attribute.filled_time (o : Organization) (b : TimeAttribute) :
    (Attribute.time b).Filled o :=
  ⟨.instant (b.of o), rfl, nofun⟩

/-- Only a clause that asks for a difference is passed with nothing. -/
theorem Single.value_ne_none (h : Single a operator value f)
    (hdiffers : operator ≠ .compare .notEqual) (hholds : f.holds o = true) :
    a.value? o ≠ none := by
  intro hnone
  obtain ⟨c, -, hmeans⟩ := h.exists_clause
  rw [h.holds_eq hmeans] at hholds
  -- no organization is without a timestamp, so the attribute is a text
  cases a with
  | time b => cases hnone
  | text b =>
    have hs : b.of o = none := Option.map_eq_none_iff.1 hnone
    cases hmeans with
    | present => simp [Clause.holds, hs] at hholds
    | compareText _ c =>
      rw [Clause.holds, hs, beq_iff_eq] at hholds
      exact hdiffers (congrArg Operator.compare hholds)
    | partOf => simp [Clause.holds, hs] at hholds

/-- **Presence is that of texts.** A filter with `pr` holds just of the organizations that have
something for its attribute exactly if the values of the attribute are texts. Exactly then it holds,
too, of every organization that passes some other clause on the attribute, which asks for no
difference, and has not the empty text for it. -/
theorem present_agrees_iff (o : Organization) (a : Attribute) (value : String) (f : Filter)
    (h : Single a .present value f) :
    ((f.holds o = true ↔ a.Filled o) ↔ ∃ b, a = .text b) ∧
    ∀ operator value' g, operator ≠ .compare .notEqual → Single a operator value' g →
      g.holds o = true → a.value? o ≠ some (.text "") →
        (f.holds o = true ↔ ∃ b, a = .text b) := by
  cases a with
  | text b =>
    have htext : ∃ b', Attribute.text b = .text b' := ⟨b, rfl⟩
    refine ⟨iff_of_true h.present_text htext, ?_⟩
    intro operator value' g hdiffers hg hholds hne
    -- the other clause shows that there is a text, and it is not empty
    refine iff_of_true (h.present_text.2 ?_) htext
    obtain ⟨x, hx⟩ := Option.ne_none_iff_exists'.1 (hg.value_ne_none hdiffers hholds)
    refine ⟨x, hx, ?_⟩
    rintro rfl
    exact hne hx
  | time b =>
    have htime : ¬ ∃ b', Attribute.time b = .text b' := nofun
    -- there is a timestamp, and `pr` fails all the same
    have hfails : ¬ f.holds o = true := by simp [h.present_time]
    refine ⟨iff_of_false ?_ htime, fun _ _ _ _ _ _ _ => iff_of_false hfails htime⟩
    exact fun hiff => hfails (hiff.2 (Attribute.filled_time o b))

/-- An organization with two values for one key. -/
def regional : Organization :=
  { Organization.new .epoch "Acme" with attributes := [⟨"region", "EU"⟩, ⟨"region", ""⟩] }

theorem present_agrees_iff_regional : ∃ f e g,
    Single (.text (.custom "region")) .present "" f ∧
    Single (.text (.custom "region")) (.compare .equal) "EU" e ∧
    Single (.time .created) .present "" g ∧
    (f.holds regional = true ↔ (Attribute.text (.custom "region")).Filled regional) ∧
    e.holds regional = true ∧ f.holds regional = true ∧
    ¬ (g.holds regional = true ↔ (Attribute.time .created).Filled regional) := by
  have hkey : (Attribute.text (.custom "region")).Writable :=
    ⟨by decide, by decide⟩
  have hf := (Draft.Means.present (.text (.custom "region")) "").single hkey
  have he := (Draft.Means.compareText (.custom "region") .equal "EU").single hkey
  have hg := (Draft.Means.present (.time .created) "").single trivial
  obtain ⟨hregion, hother⟩ := present_agrees_iff regional _ _ _ hf
  obtain ⟨hcreated, -⟩ := present_agrees_iff regional _ _ _ hg
  have hpresent := (hother _ _ _ (by decide) he rfl (by decide)).2 ⟨_, rfl⟩
  exact ⟨_, _, _, hf, he, hg, hregion.2 ⟨_, rfl⟩, rfl, hpresent, mt hcreated.1 nofun⟩

/-- An organization passes a comparison with the timestamp that it has, and `pr` does not find this
timestamp. -/
theorem present_misses_created : ∃ f g, parse "created pr" = .ok f ∧
    parse "created eq 1970-01-01T00:00:00Z" = .ok g ∧
    f.holds regional = false ∧ g.holds regional = true :=
  ⟨_, _, rfl, rfl, rfl, rfl⟩

end OrgForest.Filter
