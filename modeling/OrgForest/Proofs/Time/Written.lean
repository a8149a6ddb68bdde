import OrgForest.Proofs.Time.Denoted
import OrgForest.Time.Relaxed
import OrgForest.Time.Written

/-!
# Timestamps are read back

A timestamp in writing is read in the relaxed form as it was, whatever its year and its fraction of
a second, and leap seconds at the end of a minute too. Where its year has four digits it is in the
strict form, and for this instant. Within a minute there is no second 60, so a leap second there is
written like the second after it, and read as that one.

* `Timestamp.Legible` — timestamps that can be told from their writing;
* `Timestamp.asRead` — what a timestamp is read as, a legible one with the same writing;
* `Time.takeYear_write`, `Time.takeBounded_padded`, `Time.fractionOf_write` — the parts;
* `Time.instant_timestamp` — the instant of the parts;
* `Time.readRelaxed_write` — the whole;
* `Time.denotes_write` — what is written in the years 0 to 9999.
-/

namespace OrgForest

/-! ## Timestamps that can be read -/

namespace Timestamp

/-- A timestamp that can be told from its writing: no leap second, or one that ends a minute. -/
def Legible (t : Timestamp) : Prop := t.nanos < Time.billion ∨ t.seconds % 60 = 59

instance : DecidablePred Legible := fun _ => inferInstanceAs (Decidable (_ ∨ _))

/-- What a timestamp is read as. A leap second within a minute is taken for the next second. -/
def asRead (t : Timestamp) : Timestamp :=
  if h : t.Legible then t
  else
    { seconds := t.seconds + 1
      nanos := t.nanos - Time.billion
      inRange := by
        have hrange := t.inRange
        unfold Legible at h
        unfold Time.firstSecond Time.lastSecond at hrange ⊢
        omega
      nanos_lt := by
        have hnanos := t.nanos_lt
        omega }

variable {t : Timestamp}

theorem asRead_of_legible (h : t.Legible) : t.asRead = t := dif_pos h

theorem legible_asRead (t : Timestamp) : t.asRead.Legible := by
  unfold asRead
  split
  · assumption
  · have hnanos := t.nanos_lt
    exact .inl (show t.nanos - Time.billion < Time.billion by omega)

/-- Only what is legible is read as it was. -/
theorem asRead_eq_self : t.asRead = t ↔ t.Legible :=
  ⟨fun h => h ▸ t.legible_asRead, asRead_of_legible⟩

/-- The second after an illegible leap second is in the same minute. -/
theorem secondOfDay_asRead (h : ¬ t.Legible) : t.asRead.secondOfDay = t.secondOfDay + 1 ∧
    t.asRead.date = t.date ∧ t.secondOfDay % 60 ≠ 59 := by
  rw [asRead, dif_neg h]
  unfold Legible at h
  refine ⟨?_, ?_, ?_⟩
  · show ((t.seconds + 1) % 86400).toNat = (t.seconds % 86400).toNat + 1
    omega
  · show Time.Date.ofDays ((t.seconds + 1) / 86400) = .ofDays (t.seconds / 86400)
    congr 1
    omega
  · unfold secondOfDay
    omega

theorem date_asRead (t : Timestamp) : t.asRead.date = t.date := by
  by_cases h : t.Legible
  · rw [asRead_of_legible h]
  · exact (secondOfDay_asRead h).2.1

/-- A timestamp has the writing of what it is read as. -/
theorem write_asRead (t : Timestamp) : t.asRead.write = t.write := by
  by_cases h : t.Legible
  · rw [asRead_of_legible h]
  · obtain ⟨hsecond, hdate, hminute⟩ := secondOfDay_asRead h
    have hnanos : t.asRead.nanos = t.nanos - Time.billion := by
      rw [asRead, dif_neg h]
    have hlt := t.nanos_lt
    have hleap : ¬ t.nanos < Time.billion := fun hlt => h (.inl hlt)
    have hbelow : t.nanos - Time.billion < Time.billion := by omega
    have hfraction : t.nanos % Time.billion = t.nanos - Time.billion := by
      rw [Nat.mod_eq_sub_mod (Nat.le_of_not_lt hleap), Nat.mod_eq_of_lt hbelow]
    unfold write
    simp only [hdate, hnanos, hsecond, hfraction, if_pos hbelow, if_neg hleap,
      Nat.mod_eq_of_lt hbelow]
    have hhour : (t.secondOfDay + 1) / 3600 = t.secondOfDay / 3600 := by omega
    have hclock : (t.secondOfDay + 1) / 60 % 60 = t.secondOfDay / 60 % 60 := by omega
    have hlast : (t.secondOfDay + 1) % 60 = t.secondOfDay % 60 + 1 := by omega
    rw [hhour, hclock, hlast]

theorem text_asRead (t : Timestamp) : t.asRead.text = t.text :=
  congrArg String.ofList t.write_asRead

/-- A leap second after noon, which does not end a minute. -/
def withinMinute : Timestamp := ⟨1704110400, 1500000000, by decide, by decide⟩

/-- An instant after it, but before the one that its writing is for. -/
def afterwards : Timestamp := ⟨1704110401, 200000000, by decide, by decide⟩

theorem illegible_withinMinute : ¬ withinMinute.Legible := by decide

end Timestamp

end OrgForest

namespace OrgForest.Time

open Text (padded trimLeft Run NoDigit)

variable {rest : List Char}

/-! ## Numbers of fixed width -/

theorem trimLeft_cons {c : Char} (h : Text.isBlank c = false) (rest : List Char) :
    trimLeft (c :: rest) = c :: rest :=
  List.dropWhile_cons_of_neg (by simp [h])

/-- A number begins with a digit. -/
theorem padded_head (width n : Nat) : ∃ c cs d, padded width n = c :: cs ∧
    Text.digitValue? c = some d := by
  obtain ⟨ds, hrun, -, hne⟩ := Text.run_padded width n
  exact hrun.exists_cons hne

theorem trimLeft_padded (width n : Nat) (rest : List Char) :
    trimLeft (padded width n ++ rest) = padded width n ++ rest := by
  obtain ⟨c, cs, d, hcs, hd⟩ := padded_head width n
  rw [hcs]
  exact trimLeft_cons (Text.isBlank_digit hd) _

/-- A number of fixed width is read up to this width, whatever follows. -/
theorem takeNumber_padded {width n : Nat} (hwidth : width ≠ 0) (hn : n < 10 ^ width)
    (rest : List Char) : takeNumber width (padded width n ++ rest) = .ok (n, rest) := by
  obtain ⟨ds, hrun, hvalue, hne⟩ := Text.run_padded width n
  have hlen := Text.length_padded hwidth hn
  have htake : (padded width n ++ rest).take width = padded width n := by
    rw [List.take_append_of_le_length (by omega), List.take_of_length_le (by omega)]
  have hdrop : (padded width n ++ rest).drop width = rest := by
    rw [List.drop_append_of_le_length (by omega), List.drop_of_length_le (by omega)]
    rfl
  have hdigits : Text.takeDigits (padded width n) = (ds, []) := by
    have hend : NoDigit [] := fun _ h => by cases h
    have hall := Text.takeDigits_run hrun hend
    rwa [List.append_nil] at hall
  rw [takeNumber, htake, hdrop, hdigits]
  split
  · next h =>
    cases h
    exact absurd rfl hne
  · next h =>
    cases h
    rw [hvalue]
    rfl

theorem takeBounded_padded {low high n : Nat} (hn : n < 100) (hlow : low ≤ n) (hhigh : n ≤ high)
    (rest : List Char) : takeBounded low high (padded 2 n ++ rest) = .ok (n, rest) := by
  rw [takeBounded, trimLeft_padded, takeNumber_padded (by omega) (by omega)]
  show (if low ≤ n && n ≤ high then _ else _) = _
  rw [if_pos (by simp [hlow, hhigh])]
  rfl

theorem noDigit_cons {c : Char} (h : Text.digitValue? c = none) (rest : List Char) :
    NoDigit (c :: rest) := by
  rintro c' ⟨⟩
  exact h

/-- With nothing to bound it a number is read up to the next character that is no digit. -/
theorem takeNumber_unbounded (width n : Nat) (hrest : NoDigit rest) :
    takeNumber (padded width n ++ rest).length (padded width n ++ rest) = .ok (n, rest) := by
  obtain ⟨ds, hrun, hvalue, hne⟩ := Text.run_padded width n
  rw [takeNumber, List.take_length, List.drop_length, Text.takeDigits_run hrun hrest]
  split
  · next h =>
    cases h
    exact absurd rfl hne
  · next h =>
    cases h
    rw [hvalue, List.append_nil]

/-! ## The parts of a timestamp -/

theorem takeMark_cons {c : Char} (h : Text.isBlank c = false) (rest : List Char) :
    takeMark c (c :: rest) = .ok rest := by
  rw [takeMark, trimLeft_cons h, takeChar, if_pos rfl]

/-- A year is read with its sign, if it has one. -/
theorem takeYear_write {y : Int} (h : -262143 ≤ y ∧ y ≤ 262142) (rest : List Char) :
    takeYear (writeYear y ++ '-' :: rest) = .ok (y, '-' :: rest) := by
  have hdash : NoDigit ('-' :: rest) := noDigit_cons rfl rest
  unfold writeYear
  split
  · next hplain =>
    rw [Bool.and_eq_true, decide_eq_true_eq, decide_eq_true_eq] at hplain
    -- four digits, so there is no sign to be read in front
    obtain ⟨c, cs, d, hcs, hd⟩ := padded_head 4 y.toNat
    rw [takeYear, trimLeft_padded]
    split
    · next hsign =>
      rw [hcs] at hsign
      cases hsign
      cases hd
    · next hsign =>
      rw [hcs] at hsign
      cases hsign
      cases hd
    · rw [takeNumber_padded (by omega) (by omega)]
      show Except.ok ((y.toNat : Int), _) = _
      rw [Int.toNat_of_nonneg hplain.1]
  · -- a sign, and as many digits as it takes: the number ends at the dash
    split
    · next hneg =>
      have hread := takeNumber_unbounded 4 (-y).toNat hdash
      rw [List.cons_append, takeYear, trimLeft_cons rfl]
      show (takeNumber (padded 4 (-y).toNat ++ '-' :: rest).length _ >>= _) = _
      rw [hread]
      show (if numberMax < (-y).toNat || yearMax + 1 < (-y).toNat then _ else _) = _
      rw [if_neg]
      · show Except.ok (-((-y).toNat : Int), _) = _
        rw [Int.toNat_of_nonneg (by omega), Int.neg_neg]
      · rw [Bool.or_eq_true, decide_eq_true_eq, decide_eq_true_eq]
        unfold numberMax yearMax
        omega
    · next hpos =>
      have hread := takeNumber_unbounded 4 y.toNat hdash
      rw [List.cons_append, takeYear, trimLeft_cons rfl]
      show (takeNumber (padded 4 y.toNat ++ '-' :: rest).length _ >>= _) = _
      rw [hread]
      show (if numberMax < y.toNat || yearMax < y.toNat then _ else _) = _
      rw [if_neg]
      · show Except.ok ((y.toNat : Int), _) = _
        rw [Int.toNat_of_nonneg (by omega)]
      · rw [Bool.or_eq_true, decide_eq_true_eq, decide_eq_true_eq]
        unfold numberMax yearMax
        omega

theorem fractionOf_padded {width m n : Nat} (hwidth : width ≠ 0) (hm : m < 10 ^ width)
    (hn : m * billion / 10 ^ width = n) : FractionOf ('.' :: padded width m) n := by
  obtain ⟨ds, hrun, hvalue, hne⟩ := Text.run_padded width m
  have hlen : ds.length = width := by
    rw [← hrun.length_eq, Text.length_padded hwidth hm]
  have hfraction := FractionOf.digits hne hrun
  rwa [hvalue, hlen, hn] at hfraction

/-- A fraction is written in as many places as are enough. -/
theorem fractionOf_write {n : Nat} (h : n < billion) : FractionOf (writeFraction n) n := by
  unfold billion at h
  have hscale {m width : Nat} (hsame : m * 1000000000 / 10 ^ width = n) :
      m * billion / 10 ^ width = n := hsame
  unfold writeFraction
  split
  · next hzero =>
    subst hzero
    exact .none
  · split
    · exact fractionOf_padded (by omega) (by omega) (hscale (by omega))
    · split
      · exact fractionOf_padded (by omega) (by omega) (hscale (by omega))
      · exact fractionOf_padded (by omega) (by omega) (hscale (by omega))

/-! ## The whole -/

theorem secondOfDay_spec (t : Timestamp) :
    t.secondOfDay < 86400 ∧ (t.seconds / 86400) * 86400 + t.secondOfDay = t.seconds := by
  unfold Timestamp.secondOfDay
  omega

/-- What is written for the time of day is one. -/
theorem clock_bounds (t : Timestamp) : t.secondOfDay / 3600 < 24 ∧ t.secondOfDay / 60 % 60 < 60 ∧
    (if t.nanos < billion then t.secondOfDay % 60 else t.secondOfDay % 60 + 1) ≤ 60 := by
  obtain ⟨hday, -⟩ := secondOfDay_spec t
  refine ⟨by omega, by omega, ?_⟩
  split <;> omega

/-- The instant of the parts of a timestamp. -/
theorem instant_timestamp {t : Timestamp} (h : t.Legible) :
    instant t.date ⟨t.secondOfDay / 3600, t.secondOfDay / 60 % 60,
      if t.nanos < billion then t.secondOfDay % 60 else t.secondOfDay % 60 + 1,
      t.nanos % billion⟩ 0 = .ok t := by
  obtain ⟨hday, hseconds⟩ := secondOfDay_spec t
  have hrange := t.inRange
  unfold firstSecond lastSecond at hrange
  have hyear := Date.ofDays_year (n := t.seconds / 86400) (by omega)
  have hdays : t.date.toDays = t.seconds / 86400 := Date.toDays_ofDays _
  have hvalid : t.date.isValid = true := Date.isValid_ofDays _
  unfold instant
  rw [if_neg, if_neg, if_neg (by decide), hdays]
  · -- the seconds of the day are put together again from hours, minutes and seconds
    dsimp only
    by_cases hleap : t.nanos < billion
    · rw [if_pos hleap, if_neg (by omega), if_neg (by omega), Nat.mod_eq_of_lt hleap]
      have hsame : t.seconds / 86400 * 86400 + ((t.secondOfDay / 3600 * 3600 +
          t.secondOfDay / 60 % 60 * 60 + t.secondOfDay % 60 : Nat) : Int) - 0 = t.seconds := by
        omega
      rw [hsame, make?_eq_some.2 ⟨rfl, rfl⟩]
      rfl
    · -- a leap second is the last one of its minute
      have hlast := h.resolve_left hleap
      have hnanos := t.nanos_lt
      rw [if_neg hleap, if_pos (by omega), if_pos (by omega)]
      have hsame : t.seconds / 86400 * 86400 + ((t.secondOfDay / 3600 * 3600 +
          t.secondOfDay / 60 % 60 * 60 + 59 : Nat) : Int) - 0 = t.seconds := by
        omega
      have hcount : t.nanos % billion + billion = t.nanos := by
        unfold billion at hleap hnanos ⊢
        omega
      rw [hsame, hcount, make?_eq_some.2 ⟨rfl, rfl⟩]
      rfl
  · -- the guards: the clock shows a time of the day, and the date is one of the calendar
    rw [Clock.isValid_iff.2 (clock_bounds t)]
    decide
  · rw [hvalid]
    simp only [Bool.not_true, Bool.false_or, Bool.or_eq_true, decide_eq_true_eq]
    unfold Timestamp.date
    omega

/-- A legible timestamp in writing is read as it was. -/
theorem readRelaxed_legible {t : Timestamp} (h : t.Legible) : readRelaxed t.write = .ok t := by
  obtain ⟨hday, -⟩ := secondOfDay_spec t
  have hrange := t.inRange
  unfold firstSecond lastSecond at hrange
  obtain ⟨⟨hm, hd, -⟩, -⟩ := Date.ofDays_spec (t.seconds / 86400)
  obtain ⟨hm', hd'⟩ := Date.ofDays_le (t.seconds / 86400)
  have hyear : -262143 ≤ t.date.year ∧ t.date.year ≤ 262142 := Date.ofDays_year (by omega)
  -- part by part, each with whatever comes behind it
  have hdash (rest : List Char) : takeMark '-' ('-' :: rest) = .ok rest := takeMark_cons rfl rest
  have hcolon (rest : List Char) : takeMark ':' (':' :: rest) = .ok rest := takeMark_cons rfl rest
  have hseparator (rest : List Char) : takeSeparator ('T' :: rest) = .ok rest := rfl
  have hmonth (rest : List Char) : takeBounded 1 12 (padded 2 t.date.month ++ rest) =
      .ok (t.date.month, rest) :=
    takeBounded_padded (Nat.lt_of_le_of_lt hm' (by decide)) hm hm' rest
  have hdayOfMonth (rest : List Char) : takeBounded 1 31 (padded 2 t.date.day ++ rest) =
      .ok (t.date.day, rest) :=
    takeBounded_padded (Nat.lt_of_le_of_lt hd' (by decide)) hd hd' rest
  obtain ⟨hlt, hlt', hlast⟩ := clock_bounds t
  have hhour (rest : List Char) : takeBounded 0 23 (padded 2 (t.secondOfDay / 3600) ++ rest) =
      .ok (t.secondOfDay / 3600, rest) :=
    takeBounded_padded (by omega) (by omega) (by omega) rest
  have hminute (rest : List Char) : takeBounded 0 59 (padded 2 (t.secondOfDay / 60 % 60) ++ rest) =
      .ok (t.secondOfDay / 60 % 60, rest) :=
    takeBounded_padded (by omega) (by omega) (by omega) rest
  have hsecond (rest : List Char) := takeBounded_padded (Nat.lt_of_le_of_lt hlast (by decide))
    (Nat.zero_le _) hlast rest
  have hnanos : t.nanos % billion < billion := Nat.mod_lt _ (by decide)
  have hfraction : takeFraction (writeFraction (t.nanos % billion) ++ ['Z']) =
      .ok (t.nanos % billion, ['Z']) :=
    takeFraction_append (fractionOf_write hnanos) (noDigit_cons rfl _) (by decide)
  have hzone : takeZone (trimLeft ['Z']) = .ok (0, []) := rfl
  unfold readRelaxed Timestamp.write Date.write
  simp only [List.append_assoc, List.cons_append, takeYear_write hyear, hdash, hmonth, hdayOfMonth,
    hseparator, hhour, hcolon, hminute, hsecond, hfraction, hzone, bind, Except.bind]
  exact instant_timestamp h

/-- Any timestamp in writing is read as a legible one. -/
theorem readRelaxed_write (t : Timestamp) : readRelaxed t.write = .ok t.asRead := by
  rw [← t.write_asRead]
  exact readRelaxed_legible t.legible_asRead

/-- A legible timestamp in writing is for itself where a year of four digits has no sign. -/
theorem denotes_legible {t : Timestamp} (h : t.Legible)
    (hyear : 0 ≤ t.date.year ∧ t.date.year ≤ 9999) (minus : List Char) :
    Denotes minus t.write t := by
  obtain ⟨hday, hseconds⟩ := secondOfDay_spec t
  have hnanos := t.nanos_lt
  have hdays : t.date.toDays = t.seconds / 86400 := Date.toDays_ofDays _
  have hdate : (⟨(t.date.year.toNat : Int), t.date.month, t.date.day⟩ : Date) = t.date := by
    rw [Int.toNat_of_nonneg hyear.1]
  have hplain : writeYear t.date.year = padded 4 t.date.year.toNat := by
    rw [writeYear, if_pos (by simpa using hyear)]
  obtain ⟨hhour, hminute, hlast⟩ := clock_bounds t
  unfold Timestamp.write Date.write
  simp only [hplain, List.append_assoc, List.cons_append]
  refine .mk _ _ _ _ _ _ 'T' _ _ (t.nanos % billion) 0 t (by omega) ?_ (.inl rfl) hhour
    hminute hlast (fractionOf_write (Nat.mod_lt _ (by decide))) (.utc 'Z' (.inl rfl)) ?_ ?_
  · rw [hdate]
    exact Date.isValid_ofDays _
  · rw [hdate, hdays]
    split
    · omega
    · next hleap =>
      have hend := h.resolve_left hleap
      omega
  · -- a leap second is the last one of its minute, and only then sixty is written
    unfold billion at hnanos ⊢
    split
    · rw [if_neg (by omega)]
      omega
    · next hleap =>
      have hend := h.resolve_left hleap
      rw [if_pos (by omega)]
      omega

/-- What is written in a year of four digits is for what it is read as. -/
theorem denotes_write {t : Timestamp} (hyear : 0 ≤ t.date.year ∧ t.date.year ≤ 9999)
    (minus : List Char) : Denotes minus t.write t.asRead := by
  rw [← t.write_asRead]
  exact denotes_legible t.legible_asRead (by rwa [t.date_asRead]) minus

end OrgForest.Time
