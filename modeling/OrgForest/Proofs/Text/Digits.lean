import Mathlib.Algebra.GroupWithZero.Nat
import Mathlib.Data.Nat.Digits.Lemmas
import OrgForest.Text.Blank
import OrgForest.Text.Digits

/-!
# Numbers in writing are read back

A number in decimal, filled with zeros or not, is a run of digit characters, and the values of its
digits denote the number.

* `Text.Run` — digit characters and their values;
* `Text.run_decimal`, `Text.run_padded` — the digits of a number that is written;
* `Text.Run.eq_padded` — a run is its number, filled with zeros to the length of the run;
* `Text.takeDigits_run` — a run is read up to its end.
-/

namespace OrgForest.Text

/-- The characters are digits with these values. -/
def Run (cs : List Char) (ds : List Nat) : Prop := cs.map digitValue? = ds.map some

/-- The text does not go on with a digit. -/
def NoDigit (cs : List Char) : Prop := ∀ c ∈ cs.head?, digitValue? c = none

/-! ## Digits -/

theorem digitValue?_digitChar {d : Nat} (h : d < 10) : digitValue? d.digitChar = some d := by
  have hall : ∀ d : Fin 10, digitValue? d.val.digitChar = some d.val := by decide
  exact hall ⟨d, h⟩

/-- The code of a digit tells its value. -/
theorem toNat_of_digit {c : Char} {d : Nat} (h : digitValue? c = some d) :
    d < 10 ∧ c.toNat = d + 48 := by
  unfold digitValue? at h
  split at h
  · next hrange =>
    rw [Bool.and_eq_true, decide_eq_true_eq, decide_eq_true_eq] at hrange
    have hlow : 48 ≤ c.toNat := hrange.1
    have hhigh : c.toNat ≤ 57 := hrange.2
    obtain rfl : c.toNat - 48 = d := Option.some.inj h
    omega
  · cases h

/-- A digit character is that of its value. -/
theorem eq_digitChar {c : Char} {d : Nat} (h : digitValue? c = some d) :
    d < 10 ∧ c = d.digitChar := by
  obtain ⟨hlt, hcode⟩ := toNat_of_digit h
  have hsame : d.digitChar.toNat = 48 + d := Nat.toNat_digitChar_of_lt_ten hlt
  exact ⟨hlt, Char.toNat_inj.1 (by omega)⟩

theorem isBlank_digit {c : Char} {d : Nat} (h : digitValue? c = some d) : isBlank c = false := by
  obtain ⟨hlt, hcode⟩ := toNat_of_digit h
  simp only [isBlank, Bool.or_eq_false_iff, Bool.and_eq_false_iff, decide_eq_false_iff_not,
    beq_eq_false_iff_ne]
  omega

namespace Run

variable {cs cs' : List Char} {ds ds' : List Nat}

theorem nil : Run [] [] := rfl

theorem singleton {d : Nat} (h : d < 10) : Run [d.digitChar] [d] := by
  show [digitValue? d.digitChar] = [some d]
  rw [digitValue?_digitChar h]

theorem append (h : Run cs ds) (h' : Run cs' ds') : Run (cs ++ cs') (ds ++ ds') := by
  unfold Run
  rw [List.map_append, List.map_append, h, h']

theorem replicate_zero (n : Nat) : Run (List.replicate n '0') (List.replicate n 0) := by
  unfold Run
  rw [List.map_replicate, List.map_replicate]
  rfl

theorem length_eq (h : Run cs ds) : cs.length = ds.length := by
  rw [← List.length_map (f := digitValue?), h, List.length_map]

theorem exists_digit (h : Run cs ds) {c : Char} (hc : c ∈ cs) : ∃ d, digitValue? c = some d := by
  have hmem : digitValue? c ∈ ds.map some := h ▸ List.mem_map_of_mem hc
  obtain ⟨d, -, hd⟩ := List.mem_map.1 hmem
  exact ⟨d, hd.symm⟩

/-- A run of some digits begins with a digit. -/
theorem exists_cons (h : Run cs ds) (hne : ds ≠ []) :
    ∃ c cs' d, cs = c :: cs' ∧ digitValue? c = some d := by
  cases cs with
  | nil => exact absurd (List.length_eq_zero_iff.1 h.length_eq.symm) hne
  | cons c cs =>
    obtain ⟨d, hd⟩ := h.exists_digit List.mem_cons_self
    exact ⟨c, cs, d, rfl, hd⟩

end Run

/-! ## What digits denote -/

theorem natOfDigits_append (n : Nat) (ds ds' : List Nat) :
    natOfDigits n (ds ++ ds') = natOfDigits (natOfDigits n ds) ds' :=
  List.foldl_append

/-- Digits behind others shift what these denote. -/
theorem natOfDigits_eq_add (ds ds' : List Nat) :
    natOfDigits 0 (ds ++ ds') = natOfDigits 0 ds * 10 ^ ds'.length + natOfDigits 0 ds' := by
  have hshift (n : Nat) : natOfDigits n ds' = n * 10 ^ ds'.length + natOfDigits 0 ds' := by
    induction ds' using List.reverseRecOn with
    | nil => simp [natOfDigits]
    | append_singleton ds' d ih =>
      rw [natOfDigits_append, natOfDigits_append, ih, List.length_append, Nat.pow_add]
      show 10 * (n * 10 ^ ds'.length + natOfDigits 0 ds') + d =
        n * (10 ^ ds'.length * 10 ^ 1) + (10 * natOfDigits 0 ds' + d)
      ring
  rw [natOfDigits_append, hshift]

theorem natOfDigits_replicate (n : Nat) (ds : List Nat) :
    natOfDigits 0 (List.replicate n 0 ++ ds) = natOfDigits 0 ds := by
  induction n with
  | zero => rfl
  | succ n ih => exact ih

theorem natOfDigits_eq_ofDigits (ds : List Nat) :
    natOfDigits 0 ds = Nat.ofDigits 10 ds.reverse := by
  rw [Nat.ofDigits_eq_foldr, List.foldr_reverse, natOfDigits]
  congr 1
  funext n d
  simp [Nat.add_comm]

namespace Run

variable {cs cs' : List Char} {ds ds' : List Nat}

theorem lt_ten (h : Run cs ds) {d : Nat} (hd : d ∈ ds) : d < 10 := by
  have hmem : some d ∈ cs.map digitValue? := h ▸ List.mem_map_of_mem hd
  obtain ⟨c, -, hc⟩ := List.mem_map.1 hmem
  exact (eq_digitChar hc).1

theorem value_lt (h : Run cs ds) : natOfDigits 0 ds < 10 ^ cs.length := by
  rw [natOfDigits_eq_ofDigits, h.length_eq, ← List.length_reverse]
  exact Nat.ofDigits_lt_base_pow_length (by omega) fun d hd => h.lt_ten (List.mem_reverse.1 hd)

/-- The characters of a run are those of its digits. -/
theorem eq_map (h : Run cs ds) : cs = ds.map Nat.digitChar := by
  induction cs generalizing ds with
  | nil => rw [List.length_eq_zero_iff.1 h.length_eq.symm, List.map_nil]
  | cons c cs ih =>
    cases ds with
    | nil => cases h
    | cons d ds =>
      obtain ⟨hc, hcs⟩ := List.cons.inj h
      rw [List.map_cons, ← (eq_digitChar hc).2, ← ih hcs]

/-- Runs of one length that denote one number are the same. -/
theorem unique (h : Run cs ds) (h' : Run cs' ds') (hlen : cs.length = cs'.length)
    (hvalue : natOfDigits 0 ds = natOfDigits 0 ds') : cs = cs' := by
  rw [natOfDigits_eq_ofDigits, natOfDigits_eq_ofDigits] at hvalue
  have hds : ds.reverse = ds'.reverse := by
    refine Nat.ofDigits_inj_of_len_eq (by omega) ?_ (fun d hd => ?_) (fun d hd => ?_) hvalue
    · rw [List.length_reverse, List.length_reverse, ← h.length_eq, ← h'.length_eq, hlen]
    · exact h.lt_ten (List.mem_reverse.1 hd)
    · exact h'.lt_ten (List.mem_reverse.1 hd)
  rw [h.eq_map, h'.eq_map, List.reverse_inj.1 hds]

end Run

/-! ## Numbers in writing -/

/-- The digits of a number: no zero stands in front of others. -/
theorem run_decimal (n : Nat) : ∃ ds, Run (decimal n) ds ∧ natOfDigits 0 ds = n ∧ ds ≠ [] ∧
    (ds.head? = some 0 → ds = [0]) := by
  -- digit by digit, from the last one
  induction n using Nat.strongRecOn with
  | ind n ih =>
    by_cases hn : n < 10
    · refine ⟨[n], ?_, by simp [natOfDigits], by simp, by simp⟩
      rw [decimal, Nat.toDigits_of_lt_base hn]
      exact .singleton hn
    · obtain ⟨ds, hrun, hvalue, hne, hzero⟩ := ih (n / 10) (by omega)
      refine ⟨ds ++ [n % 10], ?_, ?_, by simp, fun hhead => ?_⟩
      · rw [decimal, Nat.toDigits_of_base_le (by omega) (by omega)]
        exact hrun.append (.singleton (by omega))
      · rw [natOfDigits_append, hvalue]
        show 10 * (n / 10) + n % 10 = n
        omega
      · -- the leading digit is that of a number that is not zero
        obtain ⟨d, ds, rfl⟩ := List.exists_cons_of_ne_nil hne
        rw [hzero hhead] at hvalue
        have hsmall : n / 10 = 0 := hvalue.symm
        omega

theorem run_padded (width n : Nat) : ∃ ds, Run (padded width n) ds ∧ natOfDigits 0 ds = n ∧
    ds ≠ [] := by
  obtain ⟨ds, hrun, hvalue, hne, -⟩ := run_decimal n
  refine ⟨_, (Run.replicate_zero _).append hrun, ?_, by simp [hne]⟩
  rw [natOfDigits_replicate, hvalue]

theorem length_padded {width n : Nat} (hwidth : width ≠ 0) (h : n < 10 ^ width) :
    (padded width n).length = width := by
  have hlen : (decimal n).length ≤ width :=
    (Nat.length_toDigits_le_iff (by omega) (by omega)).2 h
  rw [padded, List.length_append, List.length_replicate]
  omega

/-- A run is the number it denotes, filled with zeros to its length. -/
theorem Run.eq_padded {cs : List Char} {ds : List Nat} (h : Run cs ds) (hne : cs ≠ []) :
    cs = padded cs.length (natOfDigits 0 ds) := by
  obtain ⟨ds', hrun, hvalue, -⟩ := run_padded cs.length (natOfDigits 0 ds)
  have hlen := length_padded (mt List.length_eq_zero_iff.1 hne) h.value_lt
  exact h.unique hrun hlen.symm hvalue.symm

/-! ## Reading -/

theorem takeDigits_of_noDigit {cs : List Char} (h : NoDigit cs) : takeDigits cs = ([], cs) := by
  cases cs with
  | nil => rfl
  | cons c cs =>
    rw [takeDigits, h c rfl]

/-- A run is read up to its end. -/
theorem takeDigits_run {cs rest : List Char} {ds : List Nat} (h : Run cs ds)
    (hrest : NoDigit rest) : takeDigits (cs ++ rest) = (ds, rest) := by
  induction cs generalizing ds with
  | nil =>
    obtain rfl : ds = [] := by
      cases ds with
      | nil => rfl
      | cons d ds => cases h
    exact takeDigits_of_noDigit hrest
  | cons c cs ih =>
    cases ds with
    | nil => cases h
    | cons d ds =>
      obtain ⟨hc, hcs⟩ := List.cons.inj h
      rw [List.cons_append, takeDigits, hc]
      dsimp only
      rw [ih hcs]

/-- What is taken is a run. -/
theorem exists_run_of_takeDigits {cs rest : List Char} {ds : List Nat}
    (h : takeDigits cs = (ds, rest)) : ∃ front, cs = front ++ rest ∧ Run front ds := by
  induction cs generalizing ds with
  | nil =>
    cases h
    exact ⟨[], rfl, .nil⟩
  | cons c cs ih =>
    rw [takeDigits] at h
    split at h
    · next d hd =>
      obtain ⟨rfl, rfl⟩ := Prod.mk.inj h
      obtain ⟨front, hcs, hrun⟩ := ih rfl
      exact ⟨c :: front, congrArg (c :: ·) hcs, List.cons_eq_cons.2 ⟨hd, hrun⟩⟩
    · cases h
      exact ⟨[], rfl, .nil⟩

end OrgForest.Text
