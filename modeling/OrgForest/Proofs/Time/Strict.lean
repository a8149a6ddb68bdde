import OrgForest.Proofs.Time.Denoted

/-!
# What the strict form is

The strict reader takes what RFC 3339 writes: a date and a time of day at fixed places, a fraction
of any length, and an offset in hours and minutes or a `Z`. In one point it takes more. For an
offset behind UTC the minus sign U+2212 stands as well as the hyphen.

* `Time.Stamp` — the form, with the characters that stand for a minus;
* `Time.Rfc3339` — the form with the hyphen alone;
* `Time.stamp_iff` — every text of the form is for an instant;
* `Time.exists_readStrict_iff` — what the strict reader takes;
* `Time.Stamp.isAscii_or_mem` — apart from such a minus it takes ASCII.
-/

namespace OrgForest.Time

open Text (padded Run digitValue?)

/-! ## The form -/

/-- A fraction of a second in writing: nothing, or a point and digits. -/
inductive IsFraction : List Char → Prop
  | none : IsFraction []
  | digits (ds : List Char) : ds ≠ [] → (∀ c ∈ ds, (digitValue? c).isSome = true) →
      IsFraction ('.' :: ds)

/-- An offset from UTC in writing, behind it with one of some characters for a minus. -/
inductive IsOffset (minus : List Char) : List Char → Prop
  | utc (c : Char) : c = 'Z' ∨ c = 'z' → IsOffset minus [c]
  | hours (sign : Char) (hour minute : Nat) : sign = '+' ∨ sign ∈ minus → hour < 24 → minute < 60 →
      IsOffset minus (sign :: (padded 2 hour ++ ':' :: padded 2 minute))

/-- A timestamp in writing: a date of the calendar, a time of day that may be a leap second, a
fraction and an offset. -/
inductive Stamp (minus : List Char) : List Char → Prop
  | mk (year month day hour minute second : Nat) (separator : Char) (fraction offset : List Char) :
      year < 10000 → (⟨year, month, day⟩ : Date).isValid = true →
      IsSeparator separator → hour < 24 → minute < 60 → second ≤ 60 →
      IsFraction fraction → IsOffset minus offset →
      Stamp minus (padded 4 year ++ '-' :: (padded 2 month ++ '-' :: (padded 2 day ++ separator ::
        (padded 2 hour ++ ':' :: (padded 2 minute ++ ':' :: (padded 2 second ++
          (fraction ++ offset)))))))

/-- The form as RFC 3339 has it. -/
abbrev Rfc3339 : List Char → Prop := Stamp ['-']

variable {cs : List Char}

theorem IsOffset.mono {minus minus' : List Char} (h : IsOffset minus cs) (hsub : minus ⊆ minus') :
    IsOffset minus' cs := by
  rcases h with ⟨c, hc⟩ | ⟨sign, hour, minute, hsign, hh, hm⟩
  · exact .utc c hc
  · exact .hours sign hour minute (hsign.imp_right fun hmem => hsub hmem) hh hm

/-- With more characters for a minus more texts have the form. -/
theorem Stamp.mono {minus minus' : List Char} (h : Stamp minus cs) (hsub : minus ⊆ minus') :
    Stamp minus' cs := by
  rcases h with ⟨year, month, day, hour, minute, second, separator, fraction, offset, hyear, hvalid,
    hseparator, hhour, hminute, hsecond, hfraction, hoffset⟩
  exact .mk _ _ _ _ _ _ _ _ _ hyear hvalid hseparator hhour hminute hsecond hfraction
    (hoffset.mono hsub)

/-! ## Texts of the form are for instants -/

theorem isFraction_iff : IsFraction cs ↔ ∃ n, FractionOf cs n := by
  constructor
  · rintro (_ | ⟨ds, hne, hall⟩)
    · exact ⟨0, .none⟩
    · obtain ⟨values, hrun⟩ : ∃ values, Run ds values := by
        refine ⟨ds.map fun c => (digitValue? c).getD 0, ?_⟩
        unfold Run
        rw [List.map_map]
        refine List.map_congr_left fun c hc => ?_
        obtain ⟨d, hd⟩ := Option.isSome_iff_exists.1 (hall c hc)
        simp [hd]
      refine ⟨_, .digits (fun hnil => hne ?_) hrun⟩
      exact List.length_eq_zero_iff.1 (hrun.length_eq.trans (by rw [hnil]; rfl))
  · rintro ⟨_, _ | @⟨front, ds, hne, hrun⟩⟩
    · exact .none
    · refine .digits front (fun hnil => hne ?_) fun c hc => ?_
      · exact List.length_eq_zero_iff.1 (hrun.length_eq.symm.trans (by rw [hnil]; rfl))
      · obtain ⟨d, hd⟩ := hrun.exists_digit hc
        rw [hd]
        rfl

theorem isOffset_iff {minus : List Char} : IsOffset minus cs ↔ ∃ o, OffsetOf minus cs o := by
  constructor
  · rintro (⟨c, hc⟩ | ⟨sign, hour, minute, rfl | hsign, hh, hm⟩)
    · exact ⟨0, .utc c hc⟩
    · exact ⟨_, .east hour minute hh hm⟩
    · exact ⟨_, .west sign hour minute hsign hh hm⟩
  · rintro ⟨_, ⟨c, hc⟩ | ⟨hour, minute, hh, hm⟩ | ⟨sign, hour, minute, hsign, hh, hm⟩⟩
    · exact .utc c hc
    · exact .hours '+' hour minute (.inl rfl) hh hm
    · exact .hours sign hour minute (.inr hsign) hh hm

/-- Dates of four-digit years are far from the bounds of timestamps, whatever the offset. -/
theorem exists_instant {date : Date} {hour minute second nanos : Nat} {shift : Int}
    (hdate : date.isValid = true) (hyear : 0 ≤ date.year ∧ date.year < 10000) (hhour : hour < 24)
    (hminute : minute < 60) (hsecond : second ≤ 60) (hnanos : nanos < billion)
    (hshift : -86400 < shift ∧ shift < 86400) :
    ∃ t : Timestamp, t.seconds = date.toDays * 86400 +
        (hour * 3600 + minute * 60 + min second 59 : Nat) - shift ∧
      t.nanos = nanos + (if second = 60 then billion else 0) := by
  have hdays := date.toDays_bounds hdate hyear
  refine ⟨⟨_, _, ?_, ?_⟩, rfl, rfl⟩
  · unfold firstSecond lastSecond
    omega
  · split <;> omega

/-- A text has the form exactly if it is for some instant. -/
theorem stamp_iff {minus : List Char} : Stamp minus cs ↔ ∃ t, Denotes minus cs t := by
  constructor
  · rintro ⟨year, month, day, hour, minute, second, separator, fraction, offset, hyear, hvalid,
      hseparator, hhour, hminute, hsecond, hfraction, hoffset⟩
    obtain ⟨nanos, hnanos⟩ := isFraction_iff.1 hfraction
    obtain ⟨shift, hshift⟩ := isOffset_iff.1 hoffset
    have hfour : (0 : Int) ≤ year ∧ (year : Int) < 10000 := by omega
    obtain ⟨t, hseconds, hcount⟩ := exists_instant hvalid hfour hhour hminute hsecond hnanos.lt
      hshift.bounds
    exact ⟨t, .mk _ _ _ _ _ _ _ _ _ _ _ _ hyear hvalid hseparator hhour hminute hsecond hnanos
      hshift hseconds hcount⟩
  · rintro ⟨t, year, month, day, hour, minute, second, separator, fraction, offset, nanos, shift, t,
      hyear, hvalid, hseparator, hhour, hminute, hsecond, hnanos, hshift, -, -⟩
    exact .mk _ _ _ _ _ _ _ _ _ hyear hvalid hseparator hhour hminute hsecond
      (isFraction_iff.2 ⟨nanos, hnanos⟩) (isOffset_iff.2 ⟨shift, hshift⟩)

/-- **What the strict form is.** A text is read as a timestamp exactly if it has the form of RFC
3339, with the minus sign U+2212 admitted beside the hyphen. -/
theorem exists_readStrict_iff (cs : List Char) :
    (∃ t, readStrict cs = .ok t) ↔ Stamp minusSigns cs := by
  rw [stamp_iff]
  exact exists_congr fun t => readStrict_eq_ok_iff

/-! ## Characters -/

/-- Characters of ASCII. -/
def IsAscii (c : Char) : Prop := c.toNat < 128

instance (c : Char) : Decidable (IsAscii c) := inferInstanceAs (Decidable (_ < _))

section Characters

variable {c : Char} {minus : List Char}

theorem isAscii_of_digit {d : Nat} (h : digitValue? c = some d) : IsAscii c := by
  obtain ⟨hlt, rfl⟩ := Text.eq_digitChar h
  have hall : ∀ d : Fin 10, IsAscii d.val.digitChar := by decide
  exact hall ⟨d, hlt⟩

theorem isAscii_of_mem_padded {width n : Nat} (hc : c ∈ padded width n) : IsAscii c := by
  obtain ⟨ds, hrun, -⟩ := Text.run_padded width n
  obtain ⟨d, hd⟩ := hrun.exists_digit hc
  exact isAscii_of_digit hd

theorem IsSeparator.isAscii (h : IsSeparator c) : IsAscii c := by
  rcases h with rfl | rfl | rfl <;> decide

theorem IsFraction.isAscii {fraction : List Char} (h : IsFraction fraction) (hc : c ∈ fraction) :
    IsAscii c := by
  cases h with
  | none => cases hc
  | digits ds _ hall =>
    rcases List.mem_cons.1 hc with rfl | hc
    · decide
    · obtain ⟨d, hd⟩ := Option.isSome_iff_exists.1 (hall c hc)
      exact isAscii_of_digit hd

theorem IsOffset.isAscii_or_mem {offset : List Char} (h : IsOffset minus offset) (hc : c ∈ offset) :
    IsAscii c ∨ c ∈ minus := by
  cases h with
  | utc z hz =>
    obtain rfl := List.mem_singleton.1 hc
    rcases hz with rfl | rfl <;> exact .inl (by decide)
  | hours sign hour minute hsign _ _ =>
    simp only [List.mem_append, List.mem_cons] at hc
    rcases hc with rfl | hc | rfl | hc
    · rcases hsign with rfl | hsign
      · exact .inl (by decide)
      · exact .inr hsign
    · exact .inl (isAscii_of_mem_padded hc)
    · exact .inl (by decide)
    · exact .inl (isAscii_of_mem_padded hc)

/-- Outside ASCII a timestamp has characters for a minus only. -/
theorem Stamp.isAscii_or_mem (h : Stamp minus cs) (hc : c ∈ cs) : IsAscii c ∨ c ∈ minus := by
  obtain ⟨year, month, day, hour, minute, second, separator, fraction, offset, -, -, hseparator, -,
    -, -, hfraction, hoffset⟩ := h
  simp only [List.mem_append, List.mem_cons] at hc
  rcases hc with hc | rfl | hc | rfl | hc | rfl | hc | rfl | hc | rfl | hc | hc | hc
  · exact .inl (isAscii_of_mem_padded hc)
  · exact .inl (by decide)
  · exact .inl (isAscii_of_mem_padded hc)
  · exact .inl (by decide)
  · exact .inl (isAscii_of_mem_padded hc)
  · exact .inl hseparator.isAscii
  · exact .inl (isAscii_of_mem_padded hc)
  · exact .inl (by decide)
  · exact .inl (isAscii_of_mem_padded hc)
  · exact .inl (by decide)
  · exact .inl (isAscii_of_mem_padded hc)
  · exact .inl (hfraction.isAscii hc)
  · exact hoffset.isAscii_or_mem hc

end Characters

end OrgForest.Time
