import OrgForest.Bytes.Base64

/-!
# Bytes in base64url are read back

Reading is strict, so writing and reading are inverse to each other: bytes have one text, and a text
that is read at all is that of its bytes.

* `Base64.decode?_encode` — what is written is read as it was;
* `Base64.decode?_eq_some_iff` — nothing is read but what is written;
* `Base64.mem_encode` — only the symbols of the alphabet are written.
-/

namespace OrgForest.Base64

/-! ## Symbols -/

theorem value?_symbol {n : Nat} (h : n < 64) : value? (symbol n) = some n := by
  have hall : ∀ n : Fin 64, value? (symbol n) = some n.val := by decide
  exact hall ⟨n, h⟩

/-- A number has one symbol only. -/
theorem symbol_of_value? {c : Char} {n : Nat} (h : value? c = some n) : n < 64 ∧ symbol n = c := by
  have hback {m : Nat} (hm : m = c.toNat) : Char.ofNat m = c := by
    rw [hm, Char.ofNat_toNat]
  have hle (a b : Char) : a ≤ b ↔ a.toNat ≤ b.toNat := Iff.rfl
  simp only [value?, Bool.and_eq_true, decide_eq_true_eq, hle, Char.reduceToNat] at h
  -- the alphabet has five parts: three ranges, where the number is counted from the first symbol,
  -- and two symbols on their own
  split at h
  · obtain rfl := Option.some.inj h
    refine ⟨by omega, ?_⟩
    rw [symbol, if_pos (by omega)]
    exact hback (by simp only [Char.reduceToNat]; omega)
  split at h
  · obtain rfl := Option.some.inj h
    refine ⟨by omega, ?_⟩
    rw [symbol, if_neg (by omega), if_pos (by omega)]
    exact hback (by simp only [Char.reduceToNat]; omega)
  split at h
  · obtain rfl := Option.some.inj h
    refine ⟨by omega, ?_⟩
    rw [symbol, if_neg (by omega), if_neg (by omega), if_pos (by omega)]
    exact hback (by simp only [Char.reduceToNat]; omega)
  split at h
  · next hdash =>
    obtain rfl := Option.some.inj h
    exact ⟨by decide, hdash.symm⟩
  split at h
  · next hline =>
    obtain rfl := Option.some.inj h
    exact ⟨by decide, hline.symm⟩
  · cases h

/-- The characters that are written. -/
theorem mem_encode {c : Char} : ∀ {bs : List UInt8}, c ∈ encode bs → ∃ n < 64, c = symbol n
  | [], h => by cases h
  | [a], h => by
    have ha := a.toNat_lt
    simp only [encode, List.mem_cons, List.not_mem_nil, or_false] at h
    rcases h with rfl | rfl
    · exact ⟨_, by omega, rfl⟩
    · exact ⟨_, by omega, rfl⟩
  | [a, b], h => by
    have ha := a.toNat_lt
    have hb := b.toNat_lt
    simp only [encode, List.mem_cons, List.not_mem_nil, or_false] at h
    rcases h with rfl | rfl | rfl
    · exact ⟨_, by omega, rfl⟩
    · exact ⟨_, by omega, rfl⟩
    · exact ⟨_, by omega, rfl⟩
  | a :: b :: c' :: bs, h => by
    have ha := a.toNat_lt
    have hb := b.toNat_lt
    have hc := c'.toNat_lt
    simp only [encode, List.mem_cons] at h
    rcases h with rfl | rfl | rfl | rfl | h
    · exact ⟨_, by omega, rfl⟩
    · exact ⟨_, by omega, rfl⟩
    · exact ⟨_, by omega, rfl⟩
    · exact ⟨_, by omega, rfl⟩
    · exact mem_encode h

/-- A property of the sixty-four symbols is one of all that is written. -/
theorem forall_mem_encode {p : Char → Bool} (h : ∀ n : Fin 64, p (symbol n) = true)
    (bs : List UInt8) : ∀ c ∈ encode bs, p c = true := by
  intro c hc
  obtain ⟨n, hn, rfl⟩ := mem_encode hc
  exact h ⟨n, hn⟩

/-! ## Reading back -/

theorem ofNat_eq {a : UInt8} {n : Nat} (h : n = a.toNat) : UInt8.ofNat n = a := by
  rw [h, UInt8.ofNat_toNat]

/-- What is written is read as it was. -/
theorem decode?_encode : ∀ bs : List UInt8, decode? (encode bs) = some bs
  | [] => rfl
  | [a] => by
    have ha := a.toNat_lt
    simp only [encode, decode?]
    rw [value?_symbol (by omega), value?_symbol (by omega)]
    simp only [Option.bind_eq_bind, Option.bind_some]
    -- the bits that are left over are zero
    rw [if_pos (by omega), ofNat_eq (a := a) (by omega)]
    rfl
  | [a, b] => by
    have ha := a.toNat_lt
    have hb := b.toNat_lt
    simp only [encode, decode?]
    rw [value?_symbol (by omega), value?_symbol (by omega), value?_symbol (by omega)]
    simp only [Option.bind_eq_bind, Option.bind_some]
    rw [if_pos (by omega), ofNat_eq (a := a) (by omega), ofNat_eq (a := b) (by omega)]
    rfl
  | a :: b :: c :: bs => by
    have ha := a.toNat_lt
    have hb := b.toNat_lt
    have hc := c.toNat_lt
    simp only [encode, decode?]
    rw [value?_symbol (by omega), value?_symbol (by omega), value?_symbol (by omega),
      value?_symbol (by omega), decode?_encode bs]
    simp only [Option.bind_eq_bind, Option.bind_some]
    rw [ofNat_eq (a := a) (by omega), ofNat_eq (a := b) (by omega), ofNat_eq (a := c) (by omega)]
    rfl

/-! ## Nothing else is read -/

/-- A text that is read is the one that is written for its bytes. -/
theorem eq_encode_of_decode? : ∀ {cs : List Char} {bs : List UInt8}, decode? cs = some bs →
    cs = encode bs
  | [], bs, h => by
    obtain rfl : [] = bs := Option.some.inj h
    rfl
  | [_], bs, h => by cases h
  | [a, b], bs, h => by
    simp only [decode?, Option.bind_eq_bind, Option.bind_eq_some_iff] at h
    obtain ⟨va, ha, vb, hb, h⟩ := h
    obtain ⟨hva, rfl⟩ := symbol_of_value? ha
    obtain ⟨hvb, rfl⟩ := symbol_of_value? hb
    split at h
    · next hzero =>
      obtain rfl := Option.some.inj h
      -- the bits that are left over are zero, so the byte is all that the symbols spell
      have hwhole : (va * 64 + vb) / 16 % 2 ^ 8 * 16 = va * 64 + vb := by omega
      simp only [encode, UInt8.toNat_ofNat', hwhole]
      rw [show (va * 64 + vb) / 64 = va by omega, show (va * 64 + vb) % 64 = vb by omega]
    · cases h
  | [a, b, c], bs, h => by
    simp only [decode?, Option.bind_eq_bind, Option.bind_eq_some_iff] at h
    obtain ⟨va, ha, vb, hb, vc, hc, h⟩ := h
    obtain ⟨hva, rfl⟩ := symbol_of_value? ha
    obtain ⟨hvb, rfl⟩ := symbol_of_value? hb
    obtain ⟨hvc, rfl⟩ := symbol_of_value? hc
    generalize hn : (va * 64 + vb) * 64 + vc = n at h
    split at h
    · next hzero =>
      obtain rfl := Option.some.inj h
      have hwhole : (n / 1024 % 2 ^ 8 * 256 + n / 4 % 256 % 2 ^ 8) * 4 = n := by omega
      simp only [encode, UInt8.toNat_ofNat', hwhole]
      rw [show n / 4096 = va by omega, show n / 64 % 64 = vb by omega, show n % 64 = vc by omega]
    · cases h
  | a :: b :: c :: d :: cs, bs, h => by
    simp only [decode?, Option.bind_eq_bind, Option.bind_eq_some_iff] at h
    obtain ⟨va, ha, vb, hb, vc, hc, vd, hd, rest, hrest, h⟩ := h
    obtain ⟨hva, rfl⟩ := symbol_of_value? ha
    obtain ⟨hvb, rfl⟩ := symbol_of_value? hb
    obtain ⟨hvc, rfl⟩ := symbol_of_value? hc
    obtain ⟨hvd, rfl⟩ := symbol_of_value? hd
    generalize hn : ((va * 64 + vb) * 64 + vc) * 64 + vd = n at h
    obtain rfl := Option.some.inj h
    -- a full group leaves no bits over
    have hwhole : (n / 65536 % 2 ^ 8 * 256 + n / 256 % 256 % 2 ^ 8) * 256 + n % 256 % 2 ^ 8 = n := by
      omega
    simp only [encode, UInt8.toNat_ofNat', hwhole]
    rw [show n / 262144 = va by omega, show n / 4096 % 64 = vb by omega,
      show n / 64 % 64 = vc by omega, show n % 64 = vd by omega, eq_encode_of_decode? hrest]

/-- Some bytes are read from the one text that is written for them. -/
theorem decode?_eq_some_iff {cs : List Char} {bs : List UInt8} :
    decode? cs = some bs ↔ cs = encode bs :=
  ⟨eq_encode_of_decode?, fun h => h ▸ decode?_encode bs⟩

end OrgForest.Base64
