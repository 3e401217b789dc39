import Coverage.Text.Utf8

/-!
# Text survives as UTF-8

Reading what was written gives the text back (`decode_encode`), however the text was put together:
the bounds on second bytes never refuse a byte that belongs to a character.  Only the last
character decides whether the bytes end in a zero (`endsInZero_encode`), which is what padding
relies on.
-/

namespace Coverage.Utf8

/-! ## One byte -/

theorem toNat_ofNat {n : Nat} (h : n < 256) : (UInt8.ofNat n).toNat = n := by
  simp [UInt8.toNat_ofNat', Nat.mod_eq_of_lt h]

theorem decodeFrom_whole {b : UInt8} {c : Char} (h : lead b.toNat = .whole c)
    (rest : List UInt8) : decodeFrom none (b :: rest) = c :: decodeFrom none rest := by
  simp [decodeFrom, advance, start, h]

theorem decodeFrom_opens {b : UInt8} {begun : Begun} (h : lead b.toNat = .opens begun)
    (rest : List UInt8) : decodeFrom none (b :: rest) = decodeFrom (some begun) rest := by
  simp [decodeFrom, advance, start, h]

/-- A byte that goes on with a character. -/
theorem decodeFrom_further {begun : Begun} {b : UInt8} {further : Nat}
    (hlow : begun.low ≤ b.toNat) (hhigh : b.toNat ≤ begun.high)
    (hfurther : begun.further = further + 1) (rest : List UInt8) :
    decodeFrom (some begun) (b :: rest)
      = decodeFrom (some { bits := begun.bits * 0x40 + (b.toNat - 0x80), further }) rest := by
  simp [decodeFrom, advance, hlow, hhigh, hfurther]

/-- A byte that completes a character. -/
theorem decodeFrom_last {begun : Begun} {b : UInt8} (hlow : begun.low ≤ b.toNat)
    (hhigh : b.toNat ≤ begun.high) (hfurther : begun.further = 0) (rest : List UInt8) :
    decodeFrom (some begun) (b :: rest)
      = Char.ofNat (begun.bits * 0x40 + (b.toNat - 0x80)) :: decodeFrom none rest := by
  simp [decodeFrom, advance, hlow, hhigh, hfurther]

/-! ## One character -/

theorem toNat_valid (c : Char) : c.toNat < 0xD800 ∨ 0xDFFF < c.toNat ∧ c.toNat < 0x110000 :=
  c.valid

theorem decode_two {n : Nat} (hlow : 0x80 ≤ n) (hhigh : n < 0x800) (rest : List UInt8) :
    decodeFrom none (UInt8.ofNat (0xC0 + n / 0x40) :: UInt8.ofNat (0x80 + n % 0x40) :: rest)
      = Char.ofNat n :: decodeFrom none rest := by
  have h₁ : (UInt8.ofNat (0xC0 + n / 0x40)).toNat = 0xC0 + n / 0x40 := toNat_ofNat (by omega)
  have h₂ : (UInt8.ofNat (0x80 + n % 0x40)).toNat = 0x80 + n % 0x40 := toNat_ofNat (by omega)
  have hlead : lead (UInt8.ofNat (0xC0 + n / 0x40)).toNat
      = .opens { bits := n / 0x40, further := 0 } := by
    have hbits : 0xC0 + n / 0x40 - 0xC0 = n / 0x40 := by omega
    rw [h₁, lead, if_neg (by omega), if_neg (by omega), if_pos (by omega), hbits]
  have hnat : n / 0x40 * 0x40 + (0x80 + n % 0x40 - 0x80) = n := by omega
  rw [decodeFrom_opens hlead, decodeFrom_last (by simp only [h₂]; omega) (by simp only [h₂]; omega)
    rfl, h₂, hnat]

theorem decode_three {n : Nat} (hlow : 0x800 ≤ n) (hhigh : n < 0x10000)
    (hvalid : n < 0xD800 ∨ 0xDFFF < n) (rest : List UInt8) :
    decodeFrom none (UInt8.ofNat (0xE0 + n / 0x1000) :: UInt8.ofNat (0x80 + n / 0x40 % 0x40)
        :: UInt8.ofNat (0x80 + n % 0x40) :: rest)
      = Char.ofNat n :: decodeFrom none rest := by
  have h₁ : (UInt8.ofNat (0xE0 + n / 0x1000)).toNat = 0xE0 + n / 0x1000 := toNat_ofNat (by omega)
  have h₂ : (UInt8.ofNat (0x80 + n / 0x40 % 0x40)).toNat = 0x80 + n / 0x40 % 0x40 :=
    toNat_ofNat (by omega)
  have h₃ : (UInt8.ofNat (0x80 + n % 0x40)).toNat = 0x80 + n % 0x40 := toNat_ofNat (by omega)
  have hlead : lead (UInt8.ofNat (0xE0 + n / 0x1000)).toNat
      = .opens { bits := n / 0x1000, further := 1, low := if n / 0x1000 = 0 then 0xA0 else 0x80,
                 high := if n / 0x1000 = 0xD then 0x9F else 0xBF } := by
    rw [h₁, lead, if_neg (by omega), if_neg (by omega), if_neg (by omega), if_pos (by omega)]
    have hbits : 0xE0 + n / 0x1000 - 0xE0 = n / 0x1000 := by omega
    have hzero : (0xE0 + n / 0x1000 = 0xE0) = (n / 0x1000 = 0) := by rw [eq_iff_iff]; omega
    have hhigh : (0xE0 + n / 0x1000 = 0xED) = (n / 0x1000 = 0xD) := by rw [eq_iff_iff]; omega
    simp only [hbits, hzero, hhigh]
  have hnat : (n / 0x1000 * 0x40 + (0x80 + n / 0x40 % 0x40 - 0x80)) * 0x40
      + (0x80 + n % 0x40 - 0x80) = n := by omega
  rw [decodeFrom_opens hlead,
    decodeFrom_further (by simp only [h₂]; split <;> omega)
      (by simp only [h₂]; split <;> omega) rfl,
    decodeFrom_last (by simp only [h₃]; omega) (by simp only [h₃]; omega) rfl, h₂, h₃, hnat]

theorem decode_four {n : Nat} (hlow : 0x10000 ≤ n) (hhigh : n < 0x110000) (rest : List UInt8) :
    decodeFrom none (UInt8.ofNat (0xF0 + n / 0x40000) :: UInt8.ofNat (0x80 + n / 0x1000 % 0x40)
        :: UInt8.ofNat (0x80 + n / 0x40 % 0x40) :: UInt8.ofNat (0x80 + n % 0x40) :: rest)
      = Char.ofNat n :: decodeFrom none rest := by
  have h₁ : (UInt8.ofNat (0xF0 + n / 0x40000)).toNat = 0xF0 + n / 0x40000 :=
    toNat_ofNat (by omega)
  have h₂ : (UInt8.ofNat (0x80 + n / 0x1000 % 0x40)).toNat = 0x80 + n / 0x1000 % 0x40 :=
    toNat_ofNat (by omega)
  have h₃ : (UInt8.ofNat (0x80 + n / 0x40 % 0x40)).toNat = 0x80 + n / 0x40 % 0x40 :=
    toNat_ofNat (by omega)
  have h₄ : (UInt8.ofNat (0x80 + n % 0x40)).toNat = 0x80 + n % 0x40 := toNat_ofNat (by omega)
  have hlead : lead (UInt8.ofNat (0xF0 + n / 0x40000)).toNat
      = .opens { bits := n / 0x40000, further := 2, low := if n / 0x40000 = 0 then 0x90 else 0x80,
                 high := if n / 0x40000 = 4 then 0x8F else 0xBF } := by
    rw [h₁, lead, if_neg (by omega), if_neg (by omega), if_neg (by omega), if_neg (by omega),
      if_pos (by omega)]
    have hbits : 0xF0 + n / 0x40000 - 0xF0 = n / 0x40000 := by omega
    have hzero : (0xF0 + n / 0x40000 = 0xF0) = (n / 0x40000 = 0) := by rw [eq_iff_iff]; omega
    have hhigh : (0xF0 + n / 0x40000 = 0xF4) = (n / 0x40000 = 4) := by rw [eq_iff_iff]; omega
    simp only [hbits, hzero, hhigh]
  have hnat : ((n / 0x40000 * 0x40 + (0x80 + n / 0x1000 % 0x40 - 0x80)) * 0x40
      + (0x80 + n / 0x40 % 0x40 - 0x80)) * 0x40 + (0x80 + n % 0x40 - 0x80) = n := by omega
  rw [decodeFrom_opens hlead,
    decodeFrom_further (by simp only [h₂]; split <;> omega)
      (by simp only [h₂]; split <;> omega) rfl,
    decodeFrom_further (by simp only [h₃]; omega) (by simp only [h₃]; omega) rfl,
    decodeFrom_last (by simp only [h₄]; omega) (by simp only [h₄]; omega) rfl, h₂, h₃, h₄, hnat]

/-- A written character is read as what it was. -/
theorem decodeFrom_encodeChar (c : Char) (rest : List UInt8) :
    decodeFrom none (encodeChar c ++ rest) = c :: decodeFrom none rest := by
  have hvalid := toNat_valid c
  simp only [encodeChar]
  split
  · next h =>
    have hnat : (UInt8.ofNat c.toNat).toNat = c.toNat := toNat_ofNat (by omega)
    refine decodeFrom_whole ?_ rest
    rw [hnat, lead, if_pos h, Char.ofNat_toNat]
  · split
    · next h₁ h₂ =>
      have hread := decode_two (Nat.le_of_not_lt h₁) h₂ rest
      rwa [Char.ofNat_toNat] at hread
    · split
      · next h₁ h₂ h₃ =>
        have hread := decode_three (Nat.le_of_not_lt h₂) h₃ (by omega) rest
        rwa [Char.ofNat_toNat] at hread
      · next h₁ h₂ h₃ =>
        have hread := decode_four (Nat.le_of_not_lt h₃) (by omega) rest
        rwa [Char.ofNat_toNat] at hread

/-! ## Texts -/

/-- Reading what was written gives the text back. -/
theorem decode_encode (text : List Char) : decode (encode text) = text := by
  induction text with
  | nil => rfl
  | cons c text ih =>
    rw [decode, encode, List.flatMap_cons, decodeFrom_encodeChar]
    exact congrArg (c :: ·) ih

/-! ## Zeros -/

/-- Only the zero character has a zero for its last byte. -/
theorem getLast?_encodeChar (c : Char) :
    ∃ b, (encodeChar c).getLast? = some b ∧ (b = 0 → c = '\x00') := by
  have hlast : ∀ n, UInt8.ofNat (0x80 + n % 0x40) ≠ 0 := by
    intro n h
    have hnat := congrArg UInt8.toNat h
    rw [toNat_ofNat (by omega)] at hnat
    exact absurd hnat (by simp)
  simp only [encodeChar]
  split
  · next h =>
    refine ⟨UInt8.ofNat c.toNat, rfl, fun hzero => ?_⟩
    have hnat := congrArg UInt8.toNat hzero
    rw [toNat_ofNat (by omega)] at hnat
    rw [← Char.ofNat_toNat c, hnat]
    rfl
  · split
    · exact ⟨_, rfl, fun hzero => absurd hzero (hlast _)⟩
    · split
      · exact ⟨_, rfl, fun hzero => absurd hzero (hlast _)⟩
      · exact ⟨_, rfl, fun hzero => absurd hzero (hlast _)⟩

/-- The bytes of a text end in a zero only if the text ends in the zero character. -/
theorem getLast?_encode {text : List Char} (h : (encode text).getLast? = some 0) :
    text.getLast? = some '\x00' := by
  rcases List.eq_nil_or_concat text with rfl | ⟨init, c, rfl⟩
  · cases h
  · obtain ⟨b, hb, hzero⟩ := getLast?_encodeChar c
    rw [encode, List.concat_eq_append, List.flatMap_append, List.flatMap_singleton,
      List.getLast?_append, hb, Option.some_or, Option.some.injEq] at h
    rw [List.concat_eq_append, List.getLast?_concat, hzero h]

end Coverage.Utf8
