import Mathlib.Algebra.GroupWithZero.Nat
import OrgForest.Time.Calendar

/-!
# Dates and counts of days

A day falls in exactly one year and has exactly one place in it, so a date that is made of a count
of days exists in the calendar and counts as this number of days again.

* `Time.yearOfDay_spec` — the year in which a day falls;
* `Time.splitDay_spec` — the month and the day of the month;
* `Time.Date.toDays_ofDays`, `Time.Date.isValid_ofDays` — dates made of counts of days.
-/

namespace OrgForest.Time

/-! ## Years -/

/-- A year is as long as its months. -/
theorem daysBeforeYear_succ (y : Int) :
    daysBeforeYear (y + 1) = daysBeforeYear y + (monthLengths y).sum := by
  have hlength : ((monthLengths y).sum : Int) = if isLeapYear y then 366 else 365 := by
    unfold monthLengths
    cases isLeapYear y <;> rfl
  have hleap : isLeapYear y = true ↔ (y % 4 = 0 ∧ y % 100 ≠ 0) ∨ y % 400 = 0 := by
    simp [isLeapYear]
  rw [hlength]
  unfold daysBeforeYear
  by_cases h : isLeapYear y = true
  · rw [if_pos h]
    rw [hleap] at h
    omega
  · rw [if_neg h]
    rw [hleap] at h
    omega

theorem daysBeforeYear_mono {a b : Int} (h : a ≤ b) : daysBeforeYear a ≤ daysBeforeYear b := by
  unfold daysBeforeYear
  omega

/-- The year in which a day falls. -/
theorem yearOfDay_spec (n : Int) :
    daysBeforeYear (yearOfDay n) ≤ n ∧ n < daysBeforeYear (yearOfDay n + 1) := by
  unfold yearOfDay
  -- the quotient is at most one year short
  have hlow : daysBeforeYear (n * 400 / 146097 + 1) ≤ n := by
    unfold daysBeforeYear
    omega
  have hhigh : n < daysBeforeYear (n * 400 / 146097 + 1 + 1 + 1) := by
    unfold daysBeforeYear
    omega
  dsimp only
  split
  · next h => exact ⟨h, hhigh⟩
  · next h => exact ⟨hlow, Int.not_le.1 h⟩

/-! ## Months -/

/-- The month and the day of the month, for months of any lengths. -/
theorem splitDay_spec {ls : List Nat} {n : Nat} (h : n < ls.sum) :
    1 ≤ (splitDay ls n).1 ∧ 1 ≤ (splitDay ls n).2 ∧
      (∃ l, ls[(splitDay ls n).1 - 1]? = some l ∧ (splitDay ls n).2 ≤ l) ∧
      (ls.take ((splitDay ls n).1 - 1)).sum + (splitDay ls n).2 = n + 1 := by
  -- month after month
  induction ls generalizing n with
  | nil => cases h
  | cons l ls ih =>
    rw [List.sum_cons] at h
    by_cases hn : n < l
    · rw [splitDay, if_pos hn]
      exact ⟨Nat.le_refl _, by omega, ⟨l, rfl, hn⟩, by simp⟩
    · have hrest := ih (n := n - l) (by omega)
      rw [splitDay, if_neg hn]
      rcases hsplit : splitDay ls (n - l) with ⟨m, d⟩
      rw [hsplit] at hrest
      obtain ⟨hm, hd, ⟨l', hl', hle⟩, hcount⟩ := hrest
      dsimp only at hm hd hl' hle hcount ⊢
      obtain ⟨m, rfl⟩ : ∃ k, m = k + 1 := ⟨m - 1, by omega⟩
      refine ⟨by omega, hd, ⟨l', hl', hle⟩, ?_⟩
      rw [Nat.add_sub_cancel] at hcount ⊢
      rw [List.take_succ_cons, List.sum_cons]
      omega

/-! ## Dates -/

namespace Date

/-- A date that is made of a count of days: its month and day, and the count again. -/
theorem ofDays_spec (n : Int) :
    (1 ≤ (ofDays n).month ∧ 1 ≤ (ofDays n).day ∧
      ∃ l, (monthLengths (ofDays n).year)[(ofDays n).month - 1]? = some l ∧ (ofDays n).day ≤ l) ∧
      (ofDays n).toDays = n := by
  obtain ⟨hlow, hhigh⟩ := yearOfDay_spec (n + epochDay)
  rw [daysBeforeYear_succ] at hhigh
  have hplace : (n + epochDay - daysBeforeYear (yearOfDay (n + epochDay))).toNat <
      (monthLengths (yearOfDay (n + epochDay))).sum := by
    omega
  obtain ⟨hm, hd, hlength, hcount⟩ := splitDay_spec hplace
  refine ⟨⟨hm, hd, hlength⟩, ?_⟩
  have hsum (ls : List Nat) : ls.foldl (fun n m => n + m) 0 = ls.sum :=
    List.sum_eq_foldl_nat.symm
  unfold toDays
  rw [hsum]
  unfold ofDays
  dsimp only
  omega

theorem toDays_ofDays (n : Int) : (ofDays n).toDays = n := (ofDays_spec n).2

theorem isValid_ofDays (n : Int) : (ofDays n).isValid = true := by
  obtain ⟨⟨hm, hd, l, hl, hle⟩, -⟩ := ofDays_spec n
  unfold isValid
  rw [hl]
  simp only [hm, hd, hle, decide_true, Bool.and_self]

/-- Months and days of the calendar are numbers of two digits. -/
theorem le_of_isValid {d : Date} (h : d.isValid = true) : d.month ≤ 12 ∧ d.day ≤ 31 := by
  unfold isValid at h
  split at h
  · next l hl =>
    simp only [Bool.and_eq_true, decide_eq_true_eq] at h
    have hmonth := (List.getElem?_eq_some_iff.1 hl).1
    rw [show (monthLengths d.year).length = 12 from rfl] at hmonth
    have hlength : ∀ l ∈ monthLengths d.year, l ≤ 31 := by
      unfold monthLengths
      cases isLeapYear d.year <;> decide
    have hday := hlength l (List.mem_of_getElem? hl)
    omega
  · cases h

theorem ofDays_le (n : Int) : (ofDays n).month ≤ 12 ∧ (ofDays n).day ≤ 31 :=
  le_of_isValid (isValid_ofDays n)

/-- The years of timestamps. -/
theorem ofDays_year {n : Int} (h : -96465292 ≤ n ∧ n ≤ 95026236) :
    -262143 ≤ (ofDays n).year ∧ (ofDays n).year ≤ 262142 := by
  obtain ⟨hlow, hhigh⟩ := yearOfDay_spec (n + 719162)
  show -262143 ≤ yearOfDay (n + 719162) ∧ yearOfDay (n + 719162) ≤ 262142
  generalize yearOfDay (n + 719162) = y at hlow hhigh ⊢
  have hfirst : daysBeforeYear (-262143) = -95746130 := by decide
  have hlast : daysBeforeYear 262143 = 95745399 := by decide
  constructor
  · refine Int.not_lt.1 fun hlt => ?_
    have hbefore := daysBeforeYear_mono (show y + 1 ≤ -262143 by omega)
    omega
  · refine Int.not_lt.1 fun hlt => ?_
    have hafter := daysBeforeYear_mono (show 262143 ≤ y by omega)
    omega

/-- Years of four digits begin and end within three million days around the epoch. -/
theorem toDays_bounds {d : Date} (hvalid : d.isValid = true)
    (hyear : 0 ≤ d.year ∧ d.year < 10000) : -3000000 < d.toDays ∧ d.toDays < 3000000 := by
  have hday := (le_of_isValid hvalid).2
  have hsum (ls : List Nat) : ls.foldl (fun n m => n + m) 0 = ls.sum :=
    List.sum_eq_foldl_nat.symm
  have hmonths : ((monthLengths d.year).take (d.month - 1)).sum ≤ 366 := by
    have hwhole : (monthLengths d.year).sum ≤ 366 := by
      unfold monthLengths
      cases isLeapYear d.year <;> decide
    have hsplit : (monthLengths d.year).sum = ((monthLengths d.year).take (d.month - 1)).sum +
        ((monthLengths d.year).drop (d.month - 1)).sum := by
      rw [← List.sum_append, List.take_append_drop]
    omega
  unfold toDays daysBeforeYear epochDay
  rw [hsum]
  dsimp only
  omega

end Date

end OrgForest.Time
