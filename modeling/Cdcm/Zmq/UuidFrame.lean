import Cdcm.Lib.Bytes

/-!
# The UUID frame codec of `zmq_message.cpp`

A 17-byte frame whose first byte is 0 is shown as a 33-character string: `@` and
two upper-case hexadecimal digits for each of the other 16 bytes.
-/

namespace Cdcm.Zmq

/-- Length of a binary UUID frame (named `uuid_str_len` in the source). -/
def uuidStrLen : Nat := 17

/-- Size of the array that holds the text form and its NUL (named
`uuid_binary_len` in the source). -/
def uuidBinaryLen : Nat := 34

/-- The character `@` that starts the text form. -/
def uuidMark : Byte := 64

/-- The digit table of `encode_uuid`: `0` to `9` and `A` to `F`. -/
def hexChar (nibble : Nat) : Byte :=
  [48, 49, 50, 51, 52, 53, 54, 55, 56, 57, 65, 66, 67, 68, 69, 70].getD nibble 0

/-- The table of `decode_uuid`, read as signed characters: `-1` outside the
hexadecimal digits of both cases. -/
def hexToBin (character : Nat) : Int :=
  if 48 ≤ character ∧ character ≤ 57 then character - 48
  else if 65 ≤ character ∧ character ≤ 70 then character - 55
  else if 97 ≤ character ∧ character ≤ 102 then character - 87
  else -1

/-- The two digits of a byte. -/
def hexDigits (byte : Byte) : List Byte :=
  [hexChar (byte.val / 16), hexChar (byte.val % 16)]

/-- `encode_uuid` on a 17-byte frame, without the closing NUL of its array. -/
def encodeUuid (data : ByteString) : ByteString :=
  uuidMark :: (data.tail.take (uuidStrLen - 1)).flatMap hexDigits

/-- One byte from two characters, in 8-bit arithmetic. The table is indexed with
the low seven bits of a character. -/
def decodeByte (high low : Byte) : Byte :=
  Fin.ofNat 256
    ((hexToBin (high.val % 128) * 16 + hexToBin (low.val % 128)) % 256).toNat

/-- The bytes of consecutive pairs of characters. -/
def decodePairs : ByteString → ByteString
  | high :: low :: rest => decodeByte high low :: decodePairs rest
  | _ => []

/-- `decode_uuid`; `none` when one of its assertions fails. -/
def decodeUuid (uuidstr : ByteString) : Option ByteString :=
  if (cStr uuidstr).length = uuidBinaryLen - 1 ∧ uuidstr.head? = some uuidMark then
    some (0 :: decodePairs (uuidstr.tail.take 32))
  else none

/-- Frames that `recv` shows as text. -/
def IsUuidFrame (frame : ByteString) : Prop :=
  frame.length = uuidStrLen ∧ frame.head? = some 0

instance (frame : ByteString) : Decidable (IsUuidFrame frame) :=
  inferInstanceAs (Decidable (_ ∧ _))

/-- Parts that `send` takes for the text form of a UUID frame. -/
def LooksLikeUuid (part : ByteString) : Prop :=
  part.length = uuidBinaryLen - 1 ∧ part.head? = some uuidMark

instance (part : ByteString) : Decidable (LooksLikeUuid part) :=
  inferInstanceAs (Decidable (_ ∧ _))

/-! ## Decoding after encoding -/

theorem hexToBin_hexChar (nibble : Fin 16) :
    hexToBin ((hexChar nibble).val % 128) = nibble := by
  revert nibble
  decide

theorem hexChar_ne_zero (nibble : Fin 16) : hexChar nibble ≠ 0 := by
  revert nibble
  decide

theorem decodeByte_hexDigits (byte : Byte) :
    decodeByte (hexChar (byte.val / 16)) (hexChar (byte.val % 16)) = byte := by
  have high := hexToBin_hexChar ⟨byte.val / 16, by omega⟩
  have low := hexToBin_hexChar ⟨byte.val % 16, by omega⟩
  simp only at high low
  rw [decodeByte, high, low]
  apply Fin.ext
  simp only [Fin.ofNat_eq_cast, Fin.val_natCast]
  omega

theorem hexDigits_ne_zero (byte : Byte) : ∀ digit ∈ hexDigits byte, digit ≠ 0 := by
  have high := hexChar_ne_zero ⟨byte.val / 16, by omega⟩
  have low := hexChar_ne_zero ⟨byte.val % 16, by omega⟩
  simp [hexDigits, high, low]

theorem decodePairs_flatMap_hexDigits (bytes : ByteString) :
    decodePairs (bytes.flatMap hexDigits) = bytes := by
  induction bytes with
  | nil => rfl
  | cons byte bytes ih =>
      simp only [List.flatMap_cons, hexDigits, List.cons_append, List.nil_append,
        decodePairs, decodeByte_hexDigits, ih]

theorem length_flatMap_hexDigits (bytes : ByteString) :
    (bytes.flatMap hexDigits).length = 2 * bytes.length := by
  induction bytes with
  | nil => rfl
  | cons byte bytes ih =>
      rw [List.flatMap_cons, List.length_append, ih]
      simp [hexDigits]
      omega

theorem zero_not_mem_encodeUuid (data : ByteString) : 0 ∉ encodeUuid data := by
  simp only [encodeUuid, List.mem_cons, List.mem_flatMap, not_or, not_exists, not_and]
  refine ⟨by decide, fun byte _ digit => ?_⟩
  exact hexDigits_ne_zero byte 0 digit rfl

/-- The text form of a UUID frame looks like one. -/
theorem looksLikeUuid_encodeUuid {data : ByteString} (frame : IsUuidFrame data) :
    LooksLikeUuid (encodeUuid data) := by
  refine ⟨?_, rfl⟩
  have tailLength : (data.tail.take (uuidStrLen - 1)).length = 16 := by
    simp [frame.1, uuidStrLen]
  rw [encodeUuid, List.length_cons, length_flatMap_hexDigits, tailLength]
  rfl

/-- Decoding gives back the frame that was encoded. -/
theorem decodeUuid_encodeUuid {data : ByteString} (frame : IsUuidFrame data) :
    decodeUuid (encodeUuid data) = some data := by
  obtain ⟨length, mark⟩ := looksLikeUuid_encodeUuid frame
  rw [decodeUuid, cStr_of_zero_not_mem (zero_not_mem_encodeUuid data),
    if_pos ⟨length, mark⟩]
  obtain ⟨dataLength, headZero⟩ := frame
  cases data with
  | nil => contradiction
  | cons head tail =>
      have tailLength : tail.length = 16 := by simpa [uuidStrLen] using dataLength
      have whole : tail.take 16 = tail := List.take_of_length_le tailLength.le
      have digits : (tail.flatMap hexDigits).length = 32 := by
        rw [length_flatMap_hexDigits, tailLength]
      obtain rfl : head = 0 := by simpa using headZero
      simp only [encodeUuid, uuidStrLen, List.tail_cons, Nat.add_one_sub_one, whole]
      rw [List.take_of_length_le digits.le, decodePairs_flatMap_hexDigits]

theorem length_decodePairs :
    (pairs : ByteString) → (decodePairs pairs).length = pairs.length / 2
  | [] => by simp [decodePairs]
  | [_] => by simp [decodePairs]
  | high :: low :: rest => by
      simp only [decodePairs, List.length_cons, length_decodePairs rest]
      omega

/-- What `decode_uuid` returns is always a binary UUID frame. -/
theorem isUuidFrame_of_decodeUuid {uuidstr frame : ByteString}
    (decoded : decodeUuid uuidstr = some frame) : IsUuidFrame frame := by
  rw [decodeUuid] at decoded
  split at decoded
  next accepted =>
    obtain rfl := Option.some.inj decoded
    have long : uuidBinaryLen - 1 ≤ uuidstr.length :=
      accepted.1.symm.trans_le (cStr_length_le uuidstr)
    refine ⟨?_, rfl⟩
    rw [List.length_cons, length_decodePairs, List.length_take, List.length_tail]
    simp only [uuidStrLen, uuidBinaryLen] at long ⊢
    omega
  next => contradiction

/-- The text form decodes exactly when no NUL byte cuts it short. -/
theorem decodeUuid_isSome_iff {uuidstr : ByteString} (shape : LooksLikeUuid uuidstr) :
    (decodeUuid uuidstr).isSome = true ↔ 0 ∉ uuidstr := by
  rw [← cStr_eq_self_iff, decodeUuid]
  constructor
  · intro decodes
    by_contra cut
    have shorter : (cStr uuidstr).length ≠ uuidBinaryLen - 1 := fun whole =>
      cut ((List.takeWhile_prefix _).eq_of_length (whole.trans shape.1.symm))
    rw [if_neg fun both => shorter both.1] at decodes
    contradiction
  · intro whole
    rw [whole, if_pos ⟨shape.1, shape.2⟩]
    rfl

end Cdcm.Zmq
