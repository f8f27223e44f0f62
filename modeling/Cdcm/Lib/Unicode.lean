import Cdcm.Lib.Bytes

/-!
# Encodings of Unicode text

UTF-8 and little-endian UTF-16, as byte strings.  A character takes at least as many bytes in
UTF-8 as it takes units in UTF-16, and more unless it is an ASCII character.
-/

namespace Cdcm.Unicode

/-- A character in UTF-8. -/
def utf8Char (character : Char) : ByteString :=
  (String.utf8EncodeChar character).map UInt8.toFin

/-- Text in UTF-8. -/
def utf8 (characters : List Char) : ByteString := characters.flatMap utf8Char

/-- The units of a character in UTF-16. -/
def utf16Units (character : Char) : List Nat :=
  let code := character.toNat
  if code < 0x10000 then [code]
  else [0xD800 + (code - 0x10000) / 0x400, 0xDC00 + (code - 0x10000) % 0x400]

/-- A unit, with its low byte first. -/
def unitBytes (unit : Nat) : ByteString := [Fin.ofNat 256 unit, Fin.ofNat 256 (unit / 256)]

/-- The units of a text in UTF-16. -/
def utf16 (characters : List Char) : List Nat := characters.flatMap utf16Units

/-- Text in little-endian UTF-16. -/
def utf16le (characters : List Char) : ByteString := (utf16 characters).flatMap unitBytes

/-- The characters of ASCII besides NUL. -/
def IsAscii (character : Char) : Prop := 0 < character.toNat ∧ character.toNat < 128

instance : DecidablePred IsAscii := fun _ => inferInstanceAs (Decidable (_ ∧ _))

@[simp] theorem utf8_nil : utf8 [] = [] := rfl

@[simp] theorem utf8_cons (character : Char) (characters : List Char) :
    utf8 (character :: characters) = utf8Char character ++ utf8 characters := rfl

@[simp] theorem utf16_nil : utf16 [] = [] := rfl

@[simp] theorem utf16_cons (character : Char) (characters : List Char) :
    utf16 (character :: characters) = utf16Units character ++ utf16 characters := rfl

/-! ## Characters -/

/-- ASCII characters are single bytes in UTF-8. -/
theorem utf8Char_of_lt {character : Char} (small : character.toNat < 128) :
    utf8Char character = [Fin.ofNat 256 character.toNat] := by
  have size : character.utf8Size = 1 := by
    rw [Char.utf8Size_eq_one_iff, UInt32.le_iff_toNat_le]
    exact Nat.le_of_lt_succ small
  rw [utf8Char, String.utf8EncodeChar_eq_singleton size, List.map_singleton]
  congr 1

/-- ASCII characters are single units in UTF-16. -/
theorem utf16Units_of_lt {character : Char} (small : character.toNat < 128) :
    utf16Units character = [character.toNat] := by
  rw [utf16Units, if_pos (by omega)]

/-- Other characters take fewer units in UTF-16 than bytes in UTF-8. -/
theorem length_utf16Units_lt {character : Char} (large : 128 ≤ character.toNat) :
    (utf16Units character).length < (utf8Char character).length := by
  have size : (utf8Char character).length = character.utf8Size := by simp [utf8Char]
  have notOne : character.utf8Size ≠ 1 := by
    rw [Ne, Char.utf8Size_eq_one_iff, UInt32.le_iff_toNat_le]
    exact Nat.not_le.mpr large
  have positive := character.utf8Size_pos
  rw [size, utf16Units]
  by_cases basic : character.toNat < 0x10000
  · rw [if_pos basic, List.length_singleton]
    omega
  · have four : character.utf8Size = 4 := by
      rw [Char.utf8Size_eq_four_iff, UInt32.lt_iff_toNat_lt]
      exact Nat.not_lt.mp basic
    rw [if_neg basic, four]
    simp

theorem length_utf16Units_le (character : Char) :
    (utf16Units character).length ≤ (utf8Char character).length := by
  by_cases small : character.toNat < 128
  · rw [utf16Units_of_lt small, utf8Char_of_lt small]
    rfl
  · exact (length_utf16Units_lt (Nat.not_lt.mp small)).le

/-! ## Texts -/

theorem length_utf16_le (characters : List Char) :
    (utf16 characters).length ≤ (utf8 characters).length := by
  induction characters with
  | nil => simp
  | cons character characters ih =>
      have first := length_utf16Units_le character
      simp only [utf16_cons, utf8_cons, List.length_append]
      omega

/-- Only ASCII text does not get longer in UTF-8. -/
theorem lt_of_length_utf8_le {characters : List Char}
    (short : (utf8 characters).length ≤ (utf16 characters).length) :
    ∀ character ∈ characters, character.toNat < 128 := by
  induction characters with
  | nil => simp
  | cons first characters ih =>
      have firstLe := length_utf16Units_le first
      have restLe := length_utf16_le characters
      simp only [utf16_cons, utf8_cons, List.length_append] at short
      simp only [List.mem_cons, forall_eq_or_imp]
      constructor
      · by_contra large
        have firstLt := length_utf16Units_lt (Nat.not_lt.mp large)
        omega
      · exact ih (by omega)

/-- ASCII text in UTF-8. -/
theorem utf8_of_ascii {characters : List Char}
    (ascii : ∀ character ∈ characters, IsAscii character) :
    utf8 characters = characters.map fun character => Fin.ofNat 256 character.toNat := by
  induction characters with
  | nil => rfl
  | cons first characters ih =>
      simp only [List.mem_cons, forall_eq_or_imp] at ascii
      rw [utf8_cons, utf8Char_of_lt ascii.1.2, ih ascii.2]
      rfl

/-- ASCII text in UTF-16. -/
theorem utf16_of_ascii {characters : List Char}
    (ascii : ∀ character ∈ characters, IsAscii character) :
    utf16 characters = characters.map Char.toNat := by
  induction characters with
  | nil => rfl
  | cons first characters ih =>
      simp only [List.mem_cons, forall_eq_or_imp] at ascii
      rw [utf16_cons, utf16Units_of_lt ascii.1.2, ih ascii.2]
      rfl

/-- Text without zero bytes in UTF-8 has no NUL character. -/
theorem toNat_pos_of_zero_not_mem {characters : List Char} (free : 0 ∉ utf8 characters) :
    ∀ character ∈ characters, 0 < character.toNat := by
  intro character member
  by_contra zero
  have small : character.toNat < 128 := by omega
  have none : character.toNat = 0 := by omega
  refine free (List.mem_flatMap.mpr ⟨character, member, ?_⟩)
  rw [utf8Char_of_lt small, none]
  exact List.mem_singleton.mpr rfl

/-- ASCII texts with the same bytes are the same. -/
theorem eq_of_utf8_eq {left right : List Char} (leftAscii : ∀ character ∈ left, IsAscii character)
    (rightAscii : ∀ character ∈ right, IsAscii character) (same : utf8 left = utf8 right) :
    left = right := by
  rw [utf8_of_ascii leftAscii, utf8_of_ascii rightAscii] at same
  induction left generalizing right with
  | nil =>
      rw [List.map_nil, eq_comm, List.map_eq_nil_iff] at same
      exact same.symm
  | cons first left ih =>
      cases right with
      | nil => simp at same
      | cons second right =>
          simp only [List.map_cons, List.cons.injEq] at same
          simp only [List.mem_cons, forall_eq_or_imp] at leftAscii rightAscii
          have codes : first.toNat = second.toNat := by
            have values := congrArg Fin.val same.1
            have small := leftAscii.1.2
            have small' := rightAscii.1.2
            simp only [Fin.val_ofNat] at values
            omega
          rw [Char.toNat_inj.mp codes, ih leftAscii.2 rightAscii.2 same.2]

end Cdcm.Unicode
