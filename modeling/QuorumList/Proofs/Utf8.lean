import QuorumList.Text

/-!
Texts as bytes.

The bytes of a string, in UTF-8, are received as the characters of the string.
-/
namespace QuorumList.Text

/-- The bytes of a string. -/
def bytes (s : String) : List UInt8 :=
  s.toUTF8.data.toList

variable {c : Char} {rest : List UInt8}

theorem toNat_ofNat_of_lt {n : Nat} (byte : n < 256) : (UInt8.ofNat n).toNat = n := by
  rw [UInt8.toNat_ofNat', Nat.mod_eq_of_lt byte]

theorem leading?_one (short : c.toNat ≤ 0x7f) :
    leading? (UInt8.ofNat c.toNat) rest = some (c, 0) := by
  have first : (UInt8.ofNat c.toNat).toNat = c.toNat := toNat_ofNat_of_lt (by omega)
  have ascii : UInt8.ofNat c.toNat < 0x80 := by
    rw [UInt8.lt_iff_toNat_lt, first]
    exact Nat.lt_succ_of_le short
  unfold leading?
  rw [if_pos ascii, first, Char.ofNat_toNat]

theorem leading?_two (long : 0x7f < c.toNat) (short : c.toNat ≤ 0x7ff) :
    leading? (UInt8.ofNat (c.toNat / 64 % 0x20 + 0xc0))
      (UInt8.ofNat (c.toNat % 0x40 + 0x80) :: rest) = some (c, 1) := by
  have first := toNat_ofNat_of_lt (n := c.toNat / 64 % 0x20 + 0xc0) (by omega)
  have second := toNat_ofNat_of_lt (n := c.toNat % 0x40 + 0x80) (by omega)
  have spells : (c.toNat / 64 % 0x20 + 0xc0 - 0xC0) * 64 + (c.toNat % 0x40 + 0x80) % 64 =
      c.toNat := by omega
  simp only [leading?, isTrailing, payload, UInt8.lt_iff_toNat_lt, UInt8.le_iff_toNat_le, first,
    second, UInt8.reduceToNat, Bool.and_eq_true, decide_eq_true_eq]
  rw [if_neg (by omega), if_pos (by omega), if_pos (by omega), spells, Char.ofNat_toNat]

theorem toNat_isValidChar (c : Char) : c.toNat.isValidChar :=
  c.valid

theorem leading?_three (long : 0x7ff < c.toNat) (short : c.toNat ≤ 0xffff) :
    leading? (UInt8.ofNat (c.toNat / 4096 % 0x10 + 0xe0))
      (UInt8.ofNat (c.toNat / 64 % 0x40 + 0x80) :: UInt8.ofNat (c.toNat % 0x40 + 0x80) :: rest) =
        some (c, 2) := by
  have first := toNat_ofNat_of_lt (n := c.toNat / 4096 % 0x10 + 0xe0) (by omega)
  have second := toNat_ofNat_of_lt (n := c.toNat / 64 % 0x40 + 0x80) (by omega)
  have third := toNat_ofNat_of_lt (n := c.toNat % 0x40 + 0x80) (by omega)
  have valid := toNat_isValidChar c
  rw [Nat.isValidChar] at valid
  have allowed : secondAllowed (UInt8.ofNat (c.toNat / 4096 % 0x10 + 0xe0))
      (UInt8.ofNat (c.toNat / 64 % 0x40 + 0x80)) = true := by
    simp only [secondAllowed, isTrailing, ← UInt8.toNat_inj, UInt8.le_iff_toNat_le, first, second,
      UInt8.reduceToNat]
    split
    · simp only [Bool.and_eq_true, decide_eq_true_eq]
      omega
    · split
      · simp only [Bool.and_eq_true, decide_eq_true_eq]
        omega
      · rw [if_neg (by omega), if_neg (by omega)]
        simp only [Bool.and_eq_true, decide_eq_true_eq]
        omega
  have spells : (c.toNat / 4096 % 0x10 + 0xe0 - 0xE0) * 4096 +
      (c.toNat / 64 % 0x40 + 0x80) % 64 * 64 + (c.toNat % 0x40 + 0x80) % 64 = c.toNat := by
    have high : c.toNat / 4096 = c.toNat / 64 / 64 := by rw [Nat.div_div_eq_div_mul]
    have small : c.toNat / 64 / 64 % 16 = c.toNat / 64 / 64 := by omega
    rw [high, small]
    clear first second third allowed
    omega
  simp only [leading?, allowed, isTrailing, payload, UInt8.lt_iff_toNat_lt, UInt8.le_iff_toNat_le,
    first, second, third, UInt8.reduceToNat, Bool.and_eq_true, decide_eq_true_eq]
  rw [if_neg (by omega), if_neg (by omega), if_pos (by omega), if_pos ⟨trivial, by omega⟩, spells,
    Char.ofNat_toNat]

theorem leading?_four (long : 0xffff < c.toNat) :
    leading? (UInt8.ofNat (c.toNat / 262144 % 0x08 + 0xf0))
      (UInt8.ofNat (c.toNat / 4096 % 0x40 + 0x80) :: UInt8.ofNat (c.toNat / 64 % 0x40 + 0x80) ::
        UInt8.ofNat (c.toNat % 0x40 + 0x80) :: rest) = some (c, 3) := by
  have first := toNat_ofNat_of_lt (n := c.toNat / 262144 % 0x08 + 0xf0) (by omega)
  have second := toNat_ofNat_of_lt (n := c.toNat / 4096 % 0x40 + 0x80) (by omega)
  have third := toNat_ofNat_of_lt (n := c.toNat / 64 % 0x40 + 0x80) (by omega)
  have fourth := toNat_ofNat_of_lt (n := c.toNat % 0x40 + 0x80) (by omega)
  have valid := toNat_isValidChar c
  rw [Nat.isValidChar] at valid
  have allowed : secondAllowed (UInt8.ofNat (c.toNat / 262144 % 0x08 + 0xf0))
      (UInt8.ofNat (c.toNat / 4096 % 0x40 + 0x80)) = true := by
    simp only [secondAllowed, isTrailing, ← UInt8.toNat_inj, UInt8.le_iff_toNat_le, first, second,
      UInt8.reduceToNat]
    rw [if_neg (by omega), if_neg (by omega)]
    split
    · simp only [Bool.and_eq_true, decide_eq_true_eq]
      omega
    · split
      · simp only [Bool.and_eq_true, decide_eq_true_eq]
        omega
      · simp only [Bool.and_eq_true, decide_eq_true_eq]
        omega
  have spells : (c.toNat / 262144 % 0x08 + 0xf0 - 0xF0) * 262144 +
      (c.toNat / 4096 % 0x40 + 0x80) % 64 * 4096 + (c.toNat / 64 % 0x40 + 0x80) % 64 * 64 +
        (c.toNat % 0x40 + 0x80) % 64 = c.toNat := by
    have high : c.toNat / 4096 = c.toNat / 64 / 64 := by rw [Nat.div_div_eq_div_mul]
    have higher : c.toNat / 262144 = c.toNat / 64 / 64 / 64 := by
      rw [Nat.div_div_eq_div_mul, Nat.div_div_eq_div_mul]
    have small : c.toNat / 64 / 64 / 64 % 8 = c.toNat / 64 / 64 / 64 := by omega
    rw [high, higher, small]
    clear first second third fourth allowed
    omega
  simp only [leading?, allowed, isTrailing, payload, UInt8.lt_iff_toNat_lt, UInt8.le_iff_toNat_le,
    first, second, third, fourth, UInt8.reduceToNat, Bool.and_eq_true, decide_eq_true_eq]
  rw [if_neg (by omega), if_neg (by omega), if_neg (by omega), if_pos (by omega),
    if_pos ⟨⟨trivial, by omega⟩, by omega⟩, spells, Char.ofNat_toNat]

/-- The bytes of a character are received as that character, whatever comes behind them. -/
theorem ofBytes_utf8EncodeChar (c : Char) (rest : List UInt8) :
    ofBytes (String.utf8EncodeChar c ++ rest) = .char c :: ofBytes rest := by
  simp only [String.utf8EncodeChar, Char.toNat_val]
  split
  · next short =>
      rw [List.singleton_append, ofBytes, leading?_one short]
      rfl
  · next long =>
      split
      · next short =>
          simp only [List.cons_append, List.nil_append]
          rw [ofBytes, leading?_two (Nat.lt_of_not_le long) short]
          rfl
      · next longer =>
          split
          · next short =>
              simp only [List.cons_append, List.nil_append]
              rw [ofBytes, leading?_three (Nat.lt_of_not_le longer) short]
              rfl
          · next longest =>
              simp only [List.cons_append, List.nil_append]
              rw [ofBytes, leading?_four (Nat.lt_of_not_le longest)]
              rfl

/-- A string is received as it was sent. -/
theorem ofBytes_bytes (s : String) : ofBytes (bytes s) = ofString s := by
  have spelled : ∀ cs : List Char, ofBytes (cs.flatMap String.utf8EncodeChar) = cs.map .char := by
    intro cs
    induction cs with
    | nil => rw [List.flatMap_nil, ofBytes, List.map_nil]
    | cons c cs ih => rw [List.flatMap_cons, ofBytes_utf8EncodeChar, ih, List.map_cons]
  have encoded : bytes s = s.toList.flatMap String.utf8EncodeChar := by
    obtain ⟨cs, rfl⟩ := s.exists_eq_ofList
    rw [bytes, String.toUTF8_eq_toByteArray, String.toByteArray_ofList, List.utf8Encode,
      List.toList_data_toByteArray, String.toList_ofList]
  rw [encoded, spelled, ofString]

end QuorumList.Text
