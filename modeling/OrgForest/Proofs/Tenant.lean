import OrgForest.Proofs.Text.Digits
import OrgForest.Proofs.Text.Trim
import OrgForest.Tenant

/-!
# Tenant numbers in writing

A tenant number is a signed word, and is written in decimal with a minus sign in front if it is
negative. Every number is read back from what is written for it, the least one included, whose
digits alone are those of no word.

* `Tenant.readWord?_signed` — words in decimal;
* `Tenant.readId?_writeId` — tenant numbers.
-/

namespace OrgForest.Tenant

/-- The digits of a number are some digits that end with the text, and denote the number. -/
theorem takeDigits_decimal (n : Nat) : ∃ d ds, Text.takeDigits (Text.decimal n) = (d :: ds, []) ∧
    Text.natOfDigits 0 (d :: ds) = n := by
  obtain ⟨ds, hrun, hvalue, hne, -⟩ := Text.run_decimal n
  obtain ⟨d, ds, rfl⟩ := List.exists_cons_of_ne_nil hne
  refine ⟨d, ds, ?_, hvalue⟩
  rw [← List.append_nil (Text.decimal n)]
  exact Text.takeDigits_run hrun nofun

theorem readWord?_signed {i : Int} (hlow : -9223372036854775808 ≤ i)
    (hhigh : i < 9223372036854775808) : readWord? (Text.signed i) = some (Int64.ofInt i) := by
  have hrange : (decide (-9223372036854775808 ≤ i) && decide (i < 9223372036854775808)) = true := by
    rw [decide_eq_true hlow, decide_eq_true hhigh]
    rfl
  cases i with
  | ofNat n =>
    obtain ⟨d, ds, htake, hvalue⟩ := takeDigits_decimal n
    -- what begins with a digit has no sign
    obtain ⟨values, hrun, -, hne, -⟩ := Text.run_decimal n
    obtain ⟨c, cs, value, hcs, hc⟩ := hrun.exists_cons hne
    have hsigned : Text.signed (.ofNat n) = c :: cs := hcs
    rw [hcs] at htake
    rw [hsigned]
    unfold readWord?
    split
    next negative rest hsign =>
    split at hsign
    · next heq =>
      cases heq
      cases hc
    · next heq =>
      cases heq
      cases hc
    · cases hsign
      simp only [htake, hvalue, Bool.false_eq_true, if_false]
      exact if_pos hrange
  | negSucc n =>
    obtain ⟨d, ds, htake, hvalue⟩ := takeDigits_decimal (n + 1)
    unfold readWord?
    -- the value is taken with its sign before it is held against the range of words
    simp only [Text.signed, htake, hvalue, if_true]
    exact if_pos hrange

theorem isBlank_signed {i : Int} {c : Char} (hc : c ∈ Text.signed i) : Text.isBlank c = false := by
  have hdecimal {n : Nat} (hc : c ∈ Text.decimal n) : Text.isBlank c = false := by
    obtain ⟨ds, hrun, -⟩ := Text.run_decimal n
    obtain ⟨d, hd⟩ := hrun.exists_digit hc
    exact Text.isBlank_digit hd
  cases i with
  | ofNat n => exact hdecimal hc
  | negSucc n =>
    rcases List.mem_cons.1 hc with rfl | hc
    · decide
    · exact hdecimal hc

/-- Every tenant number is read back from its writing. -/
theorem readId?_writeId (i : Int64) : readId? (writeId i) = some i := by
  have hlow : -9223372036854775808 ≤ i.toInt := i.le_toInt
  have hhigh : i.toInt < 9223372036854775808 := i.toInt_lt
  rw [readId?, writeId, String.toList_ofList, Text.trim_of_no_blank fun _ => isBlank_signed,
    readWord?_signed hlow hhigh, Int64.ofInt_toInt]

end OrgForest.Tenant
