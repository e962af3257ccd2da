import RunLedger.Text.Utf8

set_option autoImplicit false

namespace RunLedger.Text.Utf8

private theorem toNat_byte {n : Nat} (h : n < 256) : (UInt8.ofNat n).toNat = n := by
  rw [UInt8.toNat_ofNat']
  exact Nat.mod_eq_of_lt h

private theorem byte_lt_iff {n k : Nat} (hn : n < 256) (hk : k < 256) :
    UInt8.ofNat n < UInt8.ofNat k ↔ n < k := by
  rw [UInt8.lt_iff_toNat_lt, toNat_byte hn, toNat_byte hk]

private theorem byte_le_iff {n k : Nat} (hn : n < 256) (hk : k < 256) :
    UInt8.ofNat n ≤ UInt8.ofNat k ↔ n ≤ k := by
  rw [UInt8.le_iff_toNat_le, toNat_byte hn, toNat_byte hk]

private theorem byte_eq_iff {n k : Nat} (hn : n < 256) (hk : k < 256) :
    UInt8.ofNat n = UInt8.ofNat k ↔ n = k := by
  rw [← UInt8.toNat_inj, toNat_byte hn, toNat_byte hk]

/-- A byte that fits brings six more bits. -/
private theorem extend_byte {v m a b n : Nat} (ha : a < 256) (hb : b < 256) (hn : n < 64)
    (hlow : a ≤ n + 128) (hhigh : n + 128 ≤ b) :
    Partial.extend ⟨v, m, UInt8.ofNat a, UInt8.ofNat b⟩ (UInt8.ofNat (n + 128)) =
      if m ≤ 1 then some (.inl (.char (Char.ofNat (v * 64 + n))))
      else some (.inr ⟨v * 64 + n, m - 1, 0x80, 0xBF⟩) := by
  have h : UInt8.ofNat a ≤ UInt8.ofNat (n + 128) ∧ UInt8.ofNat (n + 128) ≤ UInt8.ofNat b :=
    ⟨(byte_le_iff ha (by omega)).2 hlow, (byte_le_iff (by omega) hb).2 hhigh⟩
  simp only [Partial.extend, h, and_self, if_true]
  rw [toNat_byte (by omega), Nat.add_sub_cancel]

private theorem start_one {n : Nat} (h : n ≤ 127) :
    start (UInt8.ofNat n) = .inl (.char (Char.ofNat n)) := by
  have : UInt8.ofNat n < 0x80 := (byte_lt_iff (k := 128) (by omega) (by omega)).2 (by omega)
  rw [start, if_pos this, toNat_byte (by omega)]

private theorem start_two {n : Nat} (h1 : 2 ≤ n) (h2 : n < 32) :
    start (UInt8.ofNat (n + 192)) = .inr ⟨n, 1, UInt8.ofNat 0x80, UInt8.ofNat 0xBF⟩ := by
  have a : ¬ UInt8.ofNat (n + 192) < 0x80 := fun h =>
    absurd ((byte_lt_iff (k := 128) (by omega) (by omega)).1 h) (by omega)
  have b : ¬ UInt8.ofNat (n + 192) < 0xC2 := fun h =>
    absurd ((byte_lt_iff (k := 194) (by omega) (by omega)).1 h) (by omega)
  have c : UInt8.ofNat (n + 192) < 0xE0 :=
    (byte_lt_iff (k := 224) (by omega) (by omega)).2 (by omega)
  rw [start, if_neg a, if_neg b, if_pos c, toNat_byte (by omega), Nat.add_sub_cancel]
  rfl

private theorem start_three {n : Nat} (h : n < 16) :
    start (UInt8.ofNat (n + 224)) =
      .inr ⟨n, 2, UInt8.ofNat (if n = 0 then 0xA0 else 0x80),
        UInt8.ofNat (if n = 13 then 0x9F else 0xBF)⟩ := by
  have a : ¬ UInt8.ofNat (n + 224) < 0x80 := fun h =>
    absurd ((byte_lt_iff (k := 128) (by omega) (by omega)).1 h) (by omega)
  have b : ¬ UInt8.ofNat (n + 224) < 0xC2 := fun h =>
    absurd ((byte_lt_iff (k := 194) (by omega) (by omega)).1 h) (by omega)
  have c : ¬ UInt8.ofNat (n + 224) < 0xE0 := fun h =>
    absurd ((byte_lt_iff (k := 224) (by omega) (by omega)).1 h) (by omega)
  have d : UInt8.ofNat (n + 224) < 0xF0 :=
    (byte_lt_iff (k := 240) (by omega) (by omega)).2 (by omega)
  have e0 : UInt8.ofNat (n + 224) = 0xE0 ↔ n = 0 := by
    rw [show (0xE0 : UInt8) = UInt8.ofNat 224 from rfl, byte_eq_iff (by omega) (by omega)]
    omega
  have ed : UInt8.ofNat (n + 224) = 0xED ↔ n = 13 := by
    rw [show (0xED : UInt8) = UInt8.ofNat 237 from rfl, byte_eq_iff (by omega) (by omega)]
    omega
  rw [start, if_neg a, if_neg b, if_neg c, if_pos d, toNat_byte (by omega), Nat.add_sub_cancel]
  simp only [e0, ed]
  by_cases h0 : n = 0 <;> by_cases h13 : n = 13 <;> simp [h0, h13]

private theorem start_four {n : Nat} (h : n < 5) :
    start (UInt8.ofNat (n + 240)) =
      .inr ⟨n, 3, UInt8.ofNat (if n = 0 then 0x90 else 0x80),
        UInt8.ofNat (if n = 4 then 0x8F else 0xBF)⟩ := by
  have a : ¬ UInt8.ofNat (n + 240) < 0x80 := fun h =>
    absurd ((byte_lt_iff (k := 128) (by omega) (by omega)).1 h) (by omega)
  have b : ¬ UInt8.ofNat (n + 240) < 0xC2 := fun h =>
    absurd ((byte_lt_iff (k := 194) (by omega) (by omega)).1 h) (by omega)
  have c : ¬ UInt8.ofNat (n + 240) < 0xE0 := fun h =>
    absurd ((byte_lt_iff (k := 224) (by omega) (by omega)).1 h) (by omega)
  have d : ¬ UInt8.ofNat (n + 240) < 0xF0 := fun h =>
    absurd ((byte_lt_iff (k := 240) (by omega) (by omega)).1 h) (by omega)
  have e : UInt8.ofNat (n + 240) < 0xF5 :=
    (byte_lt_iff (k := 245) (by omega) (by omega)).2 (by omega)
  have f0 : UInt8.ofNat (n + 240) = 0xF0 ↔ n = 0 := by
    rw [show (0xF0 : UInt8) = UInt8.ofNat 240 from rfl, byte_eq_iff (by omega) (by omega)]
    omega
  have f4 : UInt8.ofNat (n + 240) = 0xF4 ↔ n = 4 := by
    rw [show (0xF4 : UInt8) = UInt8.ofNat 244 from rfl, byte_eq_iff (by omega) (by omega)]
    omega
  rw [start, if_neg a, if_neg b, if_neg c, if_neg d, if_pos e, toNat_byte (by omega),
    Nat.add_sub_cancel]
  simp only [f0, f4]
  by_cases h0 : n = 0 <;> by_cases h4 : n = 4 <;> simp [h0, h4]

/-- What is read of a character so far, with its last byte still to come. -/
private theorem pieces_last {v a b n : Nat} (r : Bytes) (ha : a < 256) (hb : b < 256) (hn : n < 64)
    (hlow : a ≤ n + 128) (hhigh : n + 128 ≤ b) :
    pieces (some ⟨v, 1, UInt8.ofNat a, UInt8.ofNat b⟩) (UInt8.ofNat (n + 128) :: r) =
      .char (Char.ofNat (v * 64 + n)) :: pieces none r := by
  rw [pieces, extend_byte ha hb hn hlow hhigh]
  rfl

private theorem pieces_more {v m a b n : Nat} (r : Bytes) (ha : a < 256) (hb : b < 256)
    (hn : n < 64) (hlow : a ≤ n + 128) (hhigh : n + 128 ≤ b) (hm : 1 < m) :
    pieces (some ⟨v, m, UInt8.ofNat a, UInt8.ofNat b⟩) (UInt8.ofNat (n + 128) :: r) =
      pieces (some ⟨v * 64 + n, m - 1, UInt8.ofNat 0x80, UInt8.ofNat 0xBF⟩) r := by
  rw [pieces, extend_byte ha hb hn hlow hhigh, if_neg (by omega)]
  rfl

/-- A character is read from the bytes that spell it. -/
theorem pieces_utf8EncodeChar (c : Char) (r : Bytes) :
    pieces none (String.utf8EncodeChar c ++ r) = .char c :: pieces none r := by
  have hv : c.val.toNat < 0xD800 ∨ 0xDFFF < c.val.toNat ∧ c.val.toNat < 0x110000 := c.valid
  have hc : Char.ofNat c.val.toNat = c := Char.ofNat_toNat c
  rw [String.utf8EncodeChar]
  generalize c.val.toNat = v at hv hc
  subst hc
  by_cases h1 : v ≤ 127
  · simp only [if_pos h1, List.cons_append, List.nil_append]
    rw [pieces, start_one h1]
  · by_cases h2 : v ≤ 2047
    · simp only [if_neg h1, if_pos h2, List.cons_append, List.nil_append]
      rw [pieces, start_two (by omega) (by omega)]
      simp only
      rw [pieces_last r (by omega) (by omega) (by omega) (by omega) (by omega)]
      congr 3
      omega
    · by_cases h3 : v ≤ 65535
      · simp only [if_neg h1, if_neg h2, if_pos h3, List.cons_append, List.nil_append]
        rw [pieces, start_three (by omega)]
        simp only
        rw [pieces_more _ (by split <;> omega) (by split <;> omega) (by omega)
          (by split <;> omega) (by split <;> omega) (by omega),
          pieces_last r (by omega) (by omega) (by omega) (by omega) (by omega)]
        congr 3
        omega
      · simp only [if_neg h1, if_neg h2, if_neg h3, List.cons_append, List.nil_append]
        rw [pieces, start_four (by omega)]
        simp only
        rw [pieces_more _ (by split <;> omega) (by split <;> omega) (by omega)
          (by split <;> omega) (by split <;> omega) (by omega),
          pieces_more _ (by omega) (by omega) (by omega) (by omega) (by omega) (by omega),
          pieces_last r (by omega) (by omega) (by omega) (by omega) (by omega)]
        congr 3
        omega

theorem pieces_encodeChars (cs : List Char) : pieces none (encodeChars cs) = cs.map .char := by
  induction cs with
  | nil => rfl
  | cons c cs ih =>
    rw [encodeChars, List.flatMap_cons, pieces_utf8EncodeChar, ← encodeChars, ih, List.map_cons]

/-- A text is read from the bytes that spell it. -/
theorem decode?_encode (s : String) : decode? (encode s) = some s := by
  rw [decode?, encode, pieces_encodeChars, List.mapM_map]
  have h : s.toList.mapM (Piece.char? ∘ Piece.char) = some s.toList := by
    induction s.toList with
    | nil => rfl
    | cons c cs ih => simp [ih, Piece.char?]
  rw [h, Option.map_some, String.ofList_toList]

end RunLedger.Text.Utf8
