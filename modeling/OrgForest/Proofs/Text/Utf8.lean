import OrgForest.Text.Utf8

/-!
# Texts are read back from their bytes

* `Text.ofSymbols?_symbols` — the symbols of a text spell it;
* `Text.symbolsOfBytes_bytes` — the bytes of a text are read as its characters.
-/

namespace OrgForest.Text

/-! ## Symbols -/

theorem ofSymbols?_symbols (cs : List Char) :
    ofSymbols? (symbols cs) = some (String.ofList cs) := by
  have hmap : (symbols cs).mapM id = some cs := by
    induction cs with
    | nil => rfl
    | cons c cs ih =>
      have ih' : (cs.map some).mapM id = some cs := ih
      rw [symbols, List.map_cons, List.mapM_cons, ih']
      rfl
  rw [ofSymbols?, hmap]
  rfl

@[simp] theorem ofSymbols?_toList (s : String) : ofSymbols? (symbols s.toList) = some s := by
  rw [ofSymbols?_symbols, String.ofList_toList]

/-! ## Bytes -/

theorem firstChar?_encode (c : Char) (bs : List UInt8) :
    firstChar? (String.utf8EncodeChar c ++ bs) = some c := by
  have hlen : (String.utf8EncodeChar c).length ≤ 4 := by
    rw [String.length_utf8EncodeChar]
    exact c.utf8Size_le_four
  have hbytes : ((String.utf8EncodeChar c ++ bs).take 4).toByteArray =
      [c].utf8Encode ++ (bs.take (4 - c.utf8Size)).toByteArray := by
    rw [List.take_append, List.take_of_length_le hlen, String.length_utf8EncodeChar,
      List.toByteArray_append, List.utf8Encode_singleton]
  rw [firstChar?, hbytes]
  exact List.utf8DecodeChar?_utf8Encode_singleton_append

/-- Bytes of a character are read as this character. -/
theorem readSymbols_encode (fuel : Nat) (c : Char) (bs : List UInt8) :
    readSymbols (fuel + 1) (String.utf8EncodeChar c ++ bs) = some c :: readSymbols fuel bs := by
  have hfirst := firstChar?_encode c bs
  have hrest : (String.utf8EncodeChar c ++ bs).drop c.utf8Size = bs := by
    rw [← String.length_utf8EncodeChar c, List.drop_left]
  have hsize := c.utf8Size_pos
  cases hall : String.utf8EncodeChar c ++ bs with
  | nil =>
    have hlen := congrArg List.length hall
    rw [List.length_append, String.length_utf8EncodeChar, List.length_nil] at hlen
    omega
  | cons b rest =>
    rw [hall] at hfirst hrest
    rw [readSymbols, hfirst]
    dsimp only
    rw [hrest]

/-- The bytes of a text are read as its characters. -/
theorem symbolsOfBytes_bytes (cs : List Char) : symbolsOfBytes (bytes cs) = symbols cs := by
  -- for any fuel that the bytes do not exceed
  have hread : ∀ (cs : List Char) (fuel : Nat), (bytes cs).length ≤ fuel →
      readSymbols fuel (bytes cs) = symbols cs := by
    intro cs
    induction cs with
    | nil => intro fuel _; cases fuel <;> rfl
    | cons c cs ih =>
      intro fuel hfuel
      have hsize := c.utf8Size_pos
      have hlen : (bytes (c :: cs)).length = c.utf8Size + (bytes cs).length := by
        show (String.utf8EncodeChar c ++ bytes cs).length = _
        rw [List.length_append, String.length_utf8EncodeChar]
      obtain ⟨fuel, rfl⟩ : ∃ n, fuel = n + 1 := ⟨fuel - 1, by omega⟩
      show readSymbols (fuel + 1) (String.utf8EncodeChar c ++ bytes cs) = some c :: symbols cs
      rw [readSymbols_encode, ih fuel (by omega)]
  exact hread cs _ (Nat.le_refl _)

end OrgForest.Text
