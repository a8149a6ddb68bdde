import OrgForest.Json.Document
import OrgForest.Proofs.Text.Digits
import OrgForest.Proofs.Text.Utf8

/-!
# Values are read back from their texts

The compact text of a value is read as the document of this value, whatever comes behind it, as long
as a number cannot be taken to go on. Doubles are left out: they are written by another rule.

* `Json.Exact` — values without doubles;
* `Document.readContent_text` — the content of a string;
* `Document.readValue_write` — values, by what they are made of;
* `Document.ofSymbols?_write` — whole texts.
-/

namespace OrgForest

open Text (Symbol)

namespace Text

@[simp] theorem symbols_nil : symbols [] = [] := rfl

@[simp] theorem symbols_cons (c : Char) (cs : List Char) :
    symbols (c :: cs) = some c :: symbols cs := rfl

@[simp] theorem symbols_append (cs cs' : List Char) :
    symbols (cs ++ cs') = symbols cs ++ symbols cs' :=
  List.map_append

@[simp] theorem length_symbols (cs : List Char) : (symbols cs).length = cs.length :=
  List.length_map _

end Text

open Text (symbols)

namespace Json

mutual

/-- Whether a value holds no double. -/
def Exact : Json → Prop
  | .number (.double _) => False
  | .array items => ExactItems items
  | .object members => ExactMembers members
  | _ => True

/-- Whether items hold no double. -/
def ExactItems : List Json → Prop
  | [] => True
  | v :: vs => v.Exact ∧ ExactItems vs

/-- Whether members hold no double. -/
def ExactMembers : List (String × Json) → Prop
  | [] => True
  | (_, v) :: ms => v.Exact ∧ ExactMembers ms

end

theorem Number.ofInt?_eq {i : Int} (h : -9223372036854775808 ≤ i ∧ i < 18446744073709551616) :
    Number.ofInt? i = some (.integer i h) :=
  dif_pos h

end Json

namespace Document

open Json

/-! ## Strings -/

theorem hexValue?_hexDigit {n : Nat} (h : n < 16) : hexValue? (some (hexDigit n)) = some n := by
  have hall : ∀ n : Fin 16, hexValue? (some (hexDigit n)) = some n.val := by decide
  exact hall ⟨n, h⟩

/-- A control character is read back from its escape. -/
theorem readContent_control {c : Char} (h : c.toNat < 0x20) (rest : List Symbol) :
    readContent (some '\\' :: some 'u' :: some '0' :: some '0' ::
      some (hexDigit (c.toNat / 16)) :: some (hexDigit (c.toNat % 16)) :: rest) =
        prepend (some c) (readContent rest) := by
  have hunit : unit? (some '0') (some '0') (some (hexDigit (c.toNat / 16)))
      (some (hexDigit (c.toNat % 16))) = some c.toNat := by
    have hzero : hexValue? (some '0') = some 0 := by decide
    have hvalue : ((0 * 16 + 0) * 16 + c.toNat / 16) * 16 + c.toNat % 16 = c.toNat := by omega
    simp only [unit?, hzero, hexValue?_hexDigit (show c.toNat / 16 < 16 by omega),
      hexValue?_hexDigit (show c.toNat % 16 < 16 by omega), Option.bind_eq_bind, Option.bind_some,
      hvalue]
    rfl
  have hchar : ofUnit c.toNat = some c := by
    have hself := Char.ofNat_toNat c
    have hvalid : c.toNat.isValidChar := c.valid
    rw [Char.ofNat, dif_pos hvalid] at hself
    rw [ofUnit, dif_pos hvalid, hself]
  -- it is no half of a pair, so what comes behind it does not matter
  have hpair (v : Nat) : ofPair c.toNat v = none := by
    unfold ofPair
    rw [if_neg]
    simp only [Bool.and_eq_true, decide_eq_true_eq]
    omega
  rw [readContent.eq_def]
  simp only [hunit, hchar]
  split
  · split
    · next hsome =>
      obtain ⟨u, -, hu⟩ := Option.bind_eq_some_iff.1 hsome
      rw [hpair] at hu
      cases hu
    · rfl
  · rfl

theorem readContent_writeChar (c : Char) (rest : List Symbol) :
    readContent (symbols (writeChar c) ++ rest) = prepend (some c) (readContent rest) := by
  unfold writeChar
  split
  case h_8 hquote hslash _ _ _ _ _ =>
    -- no short escape: it is a control character, or it stands for itself
    split
    · exact readContent_control ‹_› rest
    · next hplain =>
      show readContent (some c :: rest) = _
      rw [readContent.eq_def]
      split
      · next h => cases h
      · next h => cases h; exact absurd rfl hquote
      · next h => cases h; exact absurd rfl hslash
      · next h => cases h; exact absurd rfl hslash
      · next h =>
        cases h
        rw [if_neg]
        simp only [Bool.or_eq_true, decide_eq_true_eq, not_or]
        exact ⟨hslash, hplain⟩
      · next h => cases h
  all_goals rfl

/-- The content of a string is read up to the closing quote. -/
theorem readContent_text (cs : List Char) (rest : List Symbol) :
    readContent (symbols (cs.flatMap writeChar) ++ some '"' :: rest) =
      some (symbols cs, rest) := by
  induction cs with
  | nil => rfl
  | cons c cs ih =>
    rw [List.flatMap_cons, Text.symbols_append, List.append_assoc, readContent_writeChar, ih]
    rfl

/-! ## Numbers -/

/-- A number cannot be taken to go on with what comes. -/
def NumberEnds (rest : List Symbol) : Prop :=
  ∀ c, rest.head? = some (some c) → Text.digitValue? c = none ∧ c ≠ '.' ∧ c ≠ 'e' ∧ c ≠ 'E'

theorem readDigits_run {cs : List Char} {ds : List Nat} {rest : List Symbol} (h : Text.Run cs ds)
    (hrest : NumberEnds rest) : readDigits (symbols cs ++ rest) = (ds, rest) := by
  induction cs generalizing ds with
  | nil =>
    obtain rfl : ds = [] := by
      cases ds with
      | nil => rfl
      | cons d ds => cases h
    show readDigits rest = ([], rest)
    rcases rest with _ | ⟨_ | c, rest⟩
    · rfl
    · rfl
    · rw [readDigits, (hrest c rfl).1]
  | cons c cs ih =>
    cases ds with
    | nil => cases h
    | cons d ds =>
      obtain ⟨hc, hcs⟩ := List.cons.inj h
      rw [Text.symbols_cons, List.cons_append, readDigits, hc]
      dsimp only
      rw [ih hcs]

/-- A whole number is read as a numeral of its digits. -/
theorem readNumeral_decimal (negative : Bool) (n : Nat) {rest : List Symbol}
    (hrest : NumberEnds rest) : ∃ ds, Text.natOfDigits 0 ds = n ∧
      readNumeral negative (symbols (Text.decimal n) ++ rest) =
        some (⟨negative, ds, none, none⟩, rest) := by
  obtain ⟨ds, hrun, hvalue, hne, hzero⟩ := Text.run_decimal n
  refine ⟨ds, hvalue, ?_⟩
  -- neither a fraction nor an exponent begins with what comes behind
  have hfraction : readFraction rest = some (none, rest) := by
    rcases rest with _ | ⟨_ | c, rest⟩
    · rfl
    · rfl
    · unfold readFraction
      split
      · next h =>
        cases h
        exact absurd rfl (hrest '.' rfl).2.1
      · rfl
  have hexponent : readExponent rest = some (none, rest) := by
    rcases rest with _ | ⟨_ | c, rest⟩
    · rfl
    · rfl
    · obtain ⟨-, -, he, hE⟩ := hrest c rfl
      exact if_neg (by simp [he, hE])
  rw [readNumeral, readDigits_run hrun hrest]
  split
  · next h =>
    cases h
    exact absurd rfl hne
  · next h =>
    -- only zero itself begins with a zero
    cases h
    cases hzero rfl
  · next h =>
    cases h
    simp only [hfraction, hexponent, Option.bind_eq_bind, Option.bind_some]
    rfl

theorem decimal_head (n : Nat) :
    ∃ c cs, Text.decimal n = c :: cs ∧ (Text.digitValue? c).isSome := by
  obtain ⟨ds, hrun, -, hne, -⟩ := Text.run_decimal n
  obtain ⟨c, cs, d, hcs, hd⟩ := hrun.exists_cons hne
  exact ⟨c, cs, hcs, by rw [hd]; rfl⟩

/-- What a numeral without fraction and exponent denotes. -/
theorem number?_whole {m : Json.Numeral} {i : Int} (hnegative : m.negative = decide (i < 0))
    (hvalue : Text.natOfDigits 0 m.whole = i.natAbs) (hfraction : m.fraction = none)
    (hexponent : m.exponent = none)
    (h : -9223372036854775808 ≤ i ∧ i < 18446744073709551616) :
    m.number? = some (.integer i h) := by
  unfold Json.Numeral.number?
  rw [hvalue, hfraction, hexponent, hnegative]
  by_cases hi : i < 0
  · have habs : -(i.natAbs : Int) = i := by omega
    have hne : ¬(i.natAbs : Int) = 0 := by omega
    simp only [Option.isSome_none, Bool.or_self, Bool.false_eq_true, if_false, decide_eq_true_eq,
      if_pos hi, if_neg hne, habs, Json.Number.ofInt?_eq h]
  · have habs : (i.natAbs : Int) = i := by omega
    simp only [Option.isSome_none, Bool.or_self, Bool.false_eq_true, if_false, decide_eq_true_eq,
      if_neg hi, habs, Json.Number.ofInt?_eq h]

theorem readNumber_decimal (n : Nat) (rest : List Symbol) :
    readNumber (symbols (Text.decimal n) ++ rest) =
      (readNumeral false (symbols (Text.decimal n) ++ rest)).map
        fun (n, rest) => (.number n.number?, rest) := by
  obtain ⟨c, cs, hcs, hdigit⟩ := decimal_head n
  rw [hcs]
  unfold readNumber
  split
  · next hminus =>
    cases hminus
    cases hdigit
  · rfl

/-- A whole number in the range of words is read as it was written. -/
theorem readNumber_signed {i : Int} (h : -9223372036854775808 ≤ i ∧ i < 18446744073709551616)
    {rest : List Symbol} (hrest : NumberEnds rest) :
    readNumber (symbols (Text.signed i) ++ rest) = some (.number (some (.integer i h)), rest) := by
  by_cases hsign : 0 ≤ i
  · obtain ⟨n, rfl⟩ := Int.eq_ofNat_of_zero_le hsign
    obtain ⟨ds, hvalue, hread⟩ := readNumeral_decimal false n hrest
    have hsigned : Text.signed (n : Int) = Text.decimal n := rfl
    rw [hsigned, readNumber_decimal, hread, Option.map_some]
    dsimp only
    rw [number?_whole (by simp) (by simpa using hvalue) rfl rfl h]
  · obtain ⟨n, rfl⟩ := Int.eq_negSucc_of_lt_zero (Int.not_le.1 hsign)
    obtain ⟨ds, hvalue, hread⟩ := readNumeral_decimal true (n + 1) hrest
    rw [Text.signed, Text.symbols_cons, List.cons_append, readNumber, hread, Option.map_some]
    dsimp only
    rw [number?_whole (by simp) (by simpa using hvalue) rfl rfl h]

/-! ## Values -/

theorem skip_cons {s : Symbol} (h : isSpace s = false) (rest : List Symbol) :
    skip (s :: rest) = s :: rest :=
  List.dropWhile_cons_of_neg (by simp [h])

/-- A number begins with a digit or a minus sign. -/
theorem signed_head (i : Int) : ∃ c cs, Text.signed i = c :: cs ∧
    ((Text.digitValue? c).isSome ∨ c = '-') := by
  cases i with
  | ofNat n =>
    obtain ⟨c, cs, hcs, hc⟩ := decimal_head n
    exact ⟨c, cs, hcs, .inl hc⟩
  | negSucc n => exact ⟨'-', _, rfl, .inr rfl⟩

theorem isSpace_numeral {c : Char} (hc : (Text.digitValue? c).isSome ∨ c = '-') :
    isSpace (some c) = false := by
  have hspace (d : Char) (hd : Text.digitValue? d = none) (hminus : d ≠ '-') :
      (c == d) = false := by
    rw [beq_eq_false_iff_ne]
    rintro rfl
    rcases hc with hc | rfl
    · rw [hd] at hc
      cases hc
    · exact hminus rfl
  simp only [isSpace, hspace ' ' (by decide) (by decide), hspace '\t' (by decide) (by decide),
    hspace '\n' (by decide) (by decide), hspace '\r' (by decide) (by decide), Bool.or_self]

/-- How a value may begin: with no blank, and not with a closing bracket. -/
theorem write_head (v : Json) (hv : v.Exact) : ∃ c cs, v.write = c :: cs ∧
    isSpace (some c) = false ∧ c ≠ ']' := by
  cases v with
  | null => exact ⟨_, _, rfl, rfl, by decide⟩
  | bool b => cases b <;> exact ⟨_, _, rfl, rfl, by decide⟩
  | number n =>
    cases n with
    | double x => exact hv.elim
    | integer i h =>
      obtain ⟨c, cs, hcs, hc⟩ := signed_head i
      refine ⟨c, cs, hcs, isSpace_numeral hc, ?_⟩
      rintro rfl
      rcases hc with hc | hc <;> cases hc
  | string s => exact ⟨_, _, rfl, rfl, by decide⟩
  | array items => exact ⟨_, _, rfl, rfl, by decide⟩
  | object members => exact ⟨_, _, rfl, rfl, by decide⟩

theorem readValue_number {n : Json.Number} (hn : (Json.number n).Exact) (fuel : Nat)
    {rest : List Symbol} (hrest : NumberEnds rest) :
    readValue (fuel + 1) (symbols n.write ++ rest) = some (.number (some n), rest) := by
  cases n with
  | double x => exact hn.elim
  | integer i h =>
    have hread := readNumber_signed h hrest
    obtain ⟨c, cs, hcs, hc⟩ := signed_head i
    show readValue (fuel + 1) (symbols (Text.signed i) ++ rest) = _
    rw [← hread, hcs, Text.symbols_cons, List.cons_append, readValue,
      skip_cons (isSpace_numeral hc)]
    -- no other value begins so
    have hother (d : Char) (hd : ¬((Text.digitValue? d).isSome ∨ d = '-')) : c ≠ d := by
      rintro rfl
      exact hd hc
    split
    · next h => exact absurd (Option.some.inj (List.cons.inj h).1) (hother 'n' (by decide))
    · next h => exact absurd (Option.some.inj (List.cons.inj h).1) (hother 't' (by decide))
    · next h => exact absurd (Option.some.inj (List.cons.inj h).1) (hother 'f' (by decide))
    · next h => exact absurd (Option.some.inj (List.cons.inj h).1) (hother '"' (by decide))
    · next h => exact absurd (Option.some.inj (List.cons.inj h).1) (hother '[' (by decide))
    · next h => exact absurd (Option.some.inj (List.cons.inj h).1) (hother '\x7b' (by decide))
    · rfl

theorem writeItems_head {v : Json} (hv : v.Exact) (vs : List Json) :
    ∃ c cs, writeItems (v :: vs) = c :: cs ∧ isSpace (some c) = false ∧ c ≠ ']' := by
  obtain ⟨c, cs, hcs, hc⟩ := write_head v hv
  cases vs with
  | nil => exact ⟨c, cs, hcs, hc⟩
  | cons v' vs => exact ⟨c, cs ++ ',' :: writeItems (v' :: vs), by rw [writeItems, hcs]; rfl, hc⟩

/-- The name of a member is read up to its colon. -/
theorem readMembers_name (fuel : Nat) (n : String) (cs : List Char) (rest : List Symbol) :
    readMembers (fuel + 1) (symbols (writeText n ++ ':' :: cs) ++ rest) =
      match readValue fuel (symbols cs ++ rest) with
      | none => none
      | some (item, rest) =>
        match skip rest with
        | some ',' :: rest =>
          (readMembers fuel rest).map fun (members, rest) =>
            ((symbols n.toList, item) :: members, rest)
        | some '\x7d' :: rest => some ([(symbols n.toList, item)], rest)
        | _ => none := by
  have hcontent := readContent_text n.toList (some ':' :: (symbols cs ++ rest))
  have htext : symbols (writeText n ++ ':' :: cs) ++ rest =
      some '"' :: (symbols (n.toList.flatMap writeChar) ++
        some '"' :: some ':' :: (symbols cs ++ rest)) := by
    simp [writeText]
  rw [htext, readMembers, skip_cons (by decide)]
  split
  · next hquote =>
    cases hquote
    rw [hcontent]
    rfl
  · next hother => exact absurd rfl (hother _)

theorem numberEnds_cons {c : Char} (h : Text.digitValue? c = none ∧ c ≠ '.' ∧ c ≠ 'e' ∧ c ≠ 'E')
    (rest : List Symbol) : NumberEnds (some c :: rest) := by
  rintro c' ⟨⟩
  exact h

mutual

/-- A value is read back from its text, whatever comes behind. A value and the list that it stands in
take one unit of fuel each and write one character at least, so twice the length is enough. -/
theorem readValue_write : ∀ (v : Json), v.Exact → ∀ (fuel : Nat) (rest : List Symbol),
    2 * v.write.length ≤ fuel → NumberEnds rest →
      readValue fuel (symbols v.write ++ rest) = some (v.document, rest)
  | v, hv, 0, rest, hfuel, _ => by
    obtain ⟨c, cs, hcs, -⟩ := write_head v hv
    rw [hcs, List.length_cons] at hfuel
    omega
  | .null, _, fuel + 1, rest, _, _ => rfl
  | .bool true, _, fuel + 1, rest, _, _ => rfl
  | .bool false, _, fuel + 1, rest, _, _ => rfl
  | .number n, hv, fuel + 1, rest, _, hrest => readValue_number hv fuel hrest
  | .string s, _, fuel + 1, rest, _, _ => by
    show readValue (fuel + 1)
      (some '"' :: (symbols (s.toList.flatMap writeChar ++ ['"']) ++ rest)) = _
    rw [Text.symbols_append, List.append_assoc]
    show (readContent (symbols (s.toList.flatMap writeChar) ++ some '"' :: rest)).map _ = _
    rw [readContent_text]
    rfl
  | .array [], _, fuel + 1, rest, _, _ => rfl
  | .array (v :: vs), hv, fuel + 1, rest, hfuel, _ => by
    have hread := readItems_write (v :: vs) hv (by simp) fuel rest (by
      rw [write, List.length_cons, List.length_append, List.length_singleton] at hfuel
      omega)
    obtain ⟨c, cs, hcs, hspace, hclose⟩ := writeItems_head hv.1 vs
    -- the first item begins with neither a blank nor a bracket, so the array is not taken for empty
    have hskip : skip (symbols (writeItems (v :: vs)) ++ some ']' :: rest) =
        symbols (writeItems (v :: vs)) ++ some ']' :: rest := by
      rw [hcs]
      exact skip_cons hspace _
    show readValue (fuel + 1)
      (some '[' :: (symbols (writeItems (v :: vs) ++ [']']) ++ rest)) = _
    rw [Text.symbols_append, List.append_assoc]
    show (match skip (symbols (writeItems (v :: vs)) ++ some ']' :: rest) with
      | some ']' :: rest => some (Document.array [], rest)
      | rest => (readItems fuel rest).map fun (items, rest) => (Document.array items, rest)) = _
    rw [hskip]
    split
    · next h =>
      rw [hcs] at h
      exact absurd (Option.some.inj (List.cons.inj h).1) hclose
    · rw [hread]
      rfl
  | .object [], _, fuel + 1, rest, _, _ => rfl
  | .object (m :: ms), hv, fuel + 1, rest, hfuel, _ => by
    have hread := readMembers_write (m :: ms) hv (by simp) fuel rest (by
      rw [write, List.length_cons, List.length_append, List.length_singleton] at hfuel
      omega)
    -- a member begins with a quote
    obtain ⟨cs, hcs⟩ : ∃ cs, writeMembers (m :: ms) = '"' :: cs := by
      cases ms <;> exact ⟨_, rfl⟩
    show readValue (fuel + 1)
      (some '\x7b' :: (symbols (writeMembers (m :: ms) ++ ['\x7d']) ++ rest)) = _
    rw [Text.symbols_append, List.append_assoc]
    show (match skip (symbols (writeMembers (m :: ms)) ++ some '\x7d' :: rest) with
      | some '\x7d' :: rest => some (Document.object [], rest)
      | rest =>
        (readMembers fuel rest).map fun (members, rest) => (Document.object members, rest)) = _
    rw [hcs] at hread ⊢
    show (readMembers fuel (symbols ('"' :: cs) ++ some '\x7d' :: rest)).map _ = _
    rw [hread]
    rfl

theorem readItems_write : ∀ (items : List Json), ExactItems items → items ≠ [] →
    ∀ (fuel : Nat) (rest : List Symbol), 2 * (writeItems items).length + 1 ≤ fuel →
      readItems fuel (symbols (writeItems items) ++ some ']' :: rest) =
        some (documentsOfItems items, rest)
  | [], _, hne, _, _, _ => absurd rfl hne
  | [v], hv, _, fuel + 1, rest, hfuel => by
    have hread := readValue_write v hv.1 fuel (some ']' :: rest) (by
      rw [writeItems] at hfuel
      omega) (numberEnds_cons (by decide) _)
    show (match readValue fuel (symbols v.write ++ some ']' :: rest) with
      | none => none
      | some (item, rest) => _) = _
    rw [hread]
    rfl
  | v :: v' :: vs, hv, _, fuel + 1, rest, hfuel => by
    rw [writeItems, List.length_append, List.length_cons] at hfuel
    have hread := readValue_write v hv.1 fuel
      (some ',' :: (symbols (writeItems (v' :: vs)) ++ some ']' :: rest)) (by omega)
      (numberEnds_cons (by decide) _)
    have hrest := readItems_write (v' :: vs) hv.2 (by simp) fuel rest (by omega)
    rw [writeItems, Text.symbols_append, List.append_assoc]
    show (match readValue fuel (symbols v.write ++
        some ',' :: (symbols (writeItems (v' :: vs)) ++ some ']' :: rest)) with
      | none => none
      | some (item, rest) => _) = _
    rw [hread]
    show (readItems fuel (symbols (writeItems (v' :: vs)) ++ some ']' :: rest)).map _ = _
    rw [hrest]
    rfl

theorem readMembers_write : ∀ (members : List (String × Json)), ExactMembers members →
    members ≠ [] → ∀ (fuel : Nat) (rest : List Symbol),
    2 * (writeMembers members).length + 1 ≤ fuel →
      readMembers fuel (symbols (writeMembers members) ++ some '\x7d' :: rest) =
        some (documentsOfMembers members, rest)
  | [], _, hne, _, _, _ => absurd rfl hne
  | [(n, v)], hv, _, fuel + 1, rest, hfuel => by
    rw [writeMembers, List.length_append, List.length_cons] at hfuel
    have hread := readValue_write v hv.1 fuel (some '\x7d' :: rest) (by omega)
      (numberEnds_cons (by decide) _)
    rw [writeMembers, readMembers_name]
    show (match readValue fuel (symbols v.write ++ some '\x7d' :: rest) with
      | none => none
      | some (item, rest) => _) = _
    rw [hread]
    rfl
  | (n, v) :: m :: ms, hv, _, fuel + 1, rest, hfuel => by
    rw [writeMembers, List.length_append, List.length_cons, List.length_append,
      List.length_cons] at hfuel
    have hread := readValue_write v hv.1 fuel
      (some ',' :: (symbols (writeMembers (m :: ms)) ++ some '\x7d' :: rest)) (by omega)
      (numberEnds_cons (by decide) _)
    have hrest := readMembers_write (m :: ms) hv.2 (by simp) fuel rest (by omega)
    rw [writeMembers, readMembers_name, Text.symbols_append, List.append_assoc]
    show (match readValue fuel (symbols v.write ++
        some ',' :: (symbols (writeMembers (m :: ms)) ++ some '\x7d' :: rest)) with
      | none => none
      | some (item, rest) => _) = _
    rw [hread]
    show (readMembers fuel (symbols (writeMembers (m :: ms)) ++ some '\x7d' :: rest)).map _ = _
    rw [hrest]
    rfl

end

/-- The text of a value is read as its document. -/
theorem ofSymbols?_write {v : Json} (hv : v.Exact) :
    ofSymbols? (symbols v.write) = some v.document := by
  have hread := readValue_write v hv (2 * (symbols v.write).length + 2) [] (by
    rw [Text.length_symbols]
    omega) (fun _ h => by cases h)
  rw [List.append_nil] at hread
  rw [ofSymbols?, hread]
  rfl

end Document

end OrgForest
