import Cdcm.Zmq.UuidFrame

/-!
# The arrays of the UUID codec

`encode_uuid` and `decode_uuid` as they write their arrays: position by position, with 8-bit
characters that are signed on some machines.  The arrays that they leave are the ones of the
codec on byte strings, and each of the two functions undoes the other.
-/

namespace Cdcm.Zmq

/-! ## The code -/

/-- A value is written to a position of an array. -/
def store (array : ByteString) (write : Nat × Byte) : ByteString := array.set write.1 write.2

/-- `hex_char`. -/
def hexCharTable : List Byte := text "0123456789ABCDEF"

/-- What a turn of the loop of `encode_uuid` writes. -/
def encodeTurn (data : ByteString) (byteNbr : Nat) : List (Nat × Byte) :=
  [(byteNbr * 2 + 1, hexCharTable.getD ((data.getD (byteNbr + 1) 0).val >>> 4) 0),
    (byteNbr * 2 + 2, hexCharTable.getD ((data.getD (byteNbr + 1) 0).val &&& 15) 0)]

/-- What `encode_uuid` writes to its array. -/
def encodeWrites (data : ByteString) : List (Nat × Byte) :=
  (0, 64) :: (uuidBinaryLen - 1, 0) :: (List.range 16).flatMap (encodeTurn data)

/-- `encode_uuid`; none when its assertion fails. -/
def encodeUuidArray (data : ByteString) : Option ByteString :=
  if data.head? = some 0 then
    some ((encodeWrites data).foldl store (List.replicate uuidBinaryLen 0))
  else none

/-- The value of an 8-bit character, which may be signed. -/
def charValue (isSigned : Bool) (byte : Byte) : Int :=
  if isSigned ∧ 128 ≤ byte.val then byte.val - 256 else byte.val

/-- A number becomes a character of 8 bits. -/
def toChar (value : Int) : Byte := Fin.ofNat 256 (value % 256).toNat

/-- `hex_to_bin`. -/
def hexToBinTable : List Int :=
  [-1, -1, -1, -1, -1, -1, -1, -1, -1, -1, -1, -1, -1, -1, -1, -1,
    -1, -1, -1, -1, -1, -1, -1, -1, -1, -1, -1, -1, -1, -1, -1, -1,
    -1, -1, -1, -1, -1, -1, -1, -1, -1, -1, -1, -1, -1, -1, -1, -1,
    0, 1, 2, 3, 4, 5, 6, 7, 8, 9, -1, -1, -1, -1, -1, -1,
    -1, 10, 11, 12, 13, 14, 15, -1, -1, -1, -1, -1, -1, -1, -1, -1,
    -1, -1, -1, -1, -1, -1, -1, -1, -1, -1, -1, -1, -1, -1, -1, -1,
    -1, 10, 11, 12, 13, 14, 15, -1, -1, -1, -1, -1, -1, -1, -1, -1,
    -1, -1, -1, -1, -1, -1, -1, -1, -1, -1, -1, -1, -1, -1, -1, -1]

/-- The entry of the table for a character, a character itself. The lower seven bits of a
number are its rest modulo 128. -/
def tableEntry (isSigned : Bool) (character : Byte) : Int :=
  charValue isSigned (toChar (hexToBinTable.getD (charValue isSigned character % 128).toNat 0))

/-- What a turn of the loop of `decode_uuid` writes. -/
def decodeTurn (isSigned : Bool) (uuidstr : ByteString) (byteNbr : Nat) : Nat × Byte :=
  (byteNbr + 1, toChar (tableEntry isSigned (uuidstr.getD (byteNbr * 2 + 1) 0) * 16 +
    tableEntry isSigned (uuidstr.getD (byteNbr * 2 + 2) 0)))

/-- What `decode_uuid` writes to its array. -/
def decodeWrites (isSigned : Bool) (uuidstr : ByteString) : List (Nat × Byte) :=
  (0, 0) :: (List.range (uuidStrLen - 1)).map (decodeTurn isSigned uuidstr)

/-- `decode_uuid`; none when one of its assertions fails. -/
def decodeUuidArray (isSigned : Bool) (uuidstr : ByteString) : Option ByteString :=
  if (cStr uuidstr).length = uuidBinaryLen - 1 ∧ uuidstr.head? = some 64 then
    some ((decodeWrites isSigned uuidstr).foldl store (List.replicate uuidStrLen 0))
  else none

/-- An upper-case hexadecimal digit. -/
def IsHexDigit (character : Byte) : Prop :=
  (48 ≤ character.val ∧ character.val ≤ 57) ∨ (65 ≤ character.val ∧ character.val ≤ 70)

instance (character : Byte) : Decidable (IsHexDigit character) :=
  inferInstanceAs (Decidable (_ ∨ _))

/-- The texts of UUIDs: `@` and 32 digits. -/
def IsUuidText (uuidstr : ByteString) : Prop :=
  ∃ digits : ByteString, uuidstr = uuidMark :: digits ∧ digits.length = 32 ∧
    ∀ digit ∈ digits, IsHexDigit digit

/-! ## Writes to consecutive positions -/

/-- Writes to consecutive positions replace a part of an array. -/
theorem foldl_store (writes : List (Nat × Byte)) (before old behind : ByteString)
    (positions : writes.map Prod.fst = List.range' before.length writes.length)
    (room : old.length = writes.length) :
    writes.foldl store (before ++ old ++ behind) = before ++ writes.map Prod.snd ++ behind := by
  induction writes generalizing before old with
  | nil =>
      rw [List.length_eq_zero_iff.mp room]
      rfl
  | cons write writes ih =>
      cases old with
      | nil => contradiction
      | cons first old =>
          rw [List.map_cons, List.length_cons, List.range'_succ] at positions
          obtain ⟨here, later⟩ := List.cons.inj positions
          have stored : store (before ++ first :: old ++ behind) write =
              (before ++ [write.2]) ++ old ++ behind := by
            rw [store, here]
            simp
          rw [List.foldl_cons, stored, ih (before ++ [write.2]) old]
          · simp
          · simpa using later
          · simpa using room

/-- The elements at the positions of a list. -/
theorem range_map_getD (bytes : ByteString) :
    (List.range bytes.length).map (fun k => bytes.getD k 0) = bytes := by
  refine List.ext_getElem (by simp) fun i _ inBytes => ?_
  simp [inBytes]

/-! ## Encoding -/

theorem hexCharTable_getD (nibble : Nat) : hexCharTable.getD nibble 0 = hexChar nibble := by
  have table : hexCharTable =
      [48, 49, 50, 51, 52, 53, 54, 55, 56, 57, 65, 66, 67, 68, 69, 70] := by
    decide
  rw [table, hexChar]

/-- A turn writes the digits of a byte. -/
theorem encodeTurn_values (data : ByteString) (byteNbr : Nat) :
    (encodeTurn data byteNbr).map Prod.snd = hexDigits (data.getD (byteNbr + 1) 0) := by
  have high (byte : Byte) : byte.val >>> 4 = byte.val / 16 := Nat.shiftRight_eq_div_pow _ 4
  have low (byte : Byte) : byte.val &&& 15 = byte.val % 16 :=
    Nat.and_two_pow_sub_one_eq_mod _ 4
  simp only [encodeTurn, List.map_cons, List.map_nil, hexCharTable_getD, high, low, hexDigits]

/-- The loop writes the digits of the bytes behind the first one. -/
theorem encodeLoop_values {bytes : ByteString} (whole : bytes.length = 16) (first : Byte) :
    ((List.range 16).flatMap (encodeTurn (first :: bytes))).map Prod.snd =
      bytes.flatMap hexDigits := by
  have elements := range_map_getD bytes
  rw [whole] at elements
  have turn (k : Nat) :
      (encodeTurn (first :: bytes) k).map Prod.snd = hexDigits (bytes.getD k 0) := by
    rw [encodeTurn_values, List.getD_cons_succ]
  rw [List.map_flatMap]
  simp only [turn]
  conv_rhs => rw [← elements, List.flatMap_map]

/-- All positions of the array are written, each of them once. -/
theorem encodeWrites_positions (data : ByteString) :
    ((encodeWrites data).map Prod.fst).Perm (List.range uuidBinaryLen) := by
  have positions : (encodeWrites data).map Prod.fst = 0 :: 33 :: List.range' 1 32 := rfl
  rw [positions]
  decide

/-- The array is the text form of the codec with its NUL. -/
theorem encodeUuidArray_eq {data : ByteString} (frame : IsUuidFrame data) :
    encodeUuidArray data = some (encodeUuid data ++ [0]) := by
  obtain ⟨length, head⟩ := frame
  rw [encodeUuidArray, if_pos head, encodeUuid]
  cases data with
  | nil => contradiction
  | cons first bytes =>
      have whole : bytes.length = 16 := by simpa [uuidStrLen] using length
      have values := encodeLoop_values whole first
      have start : store (store (List.replicate uuidBinaryLen 0) (0, 64)) (uuidBinaryLen - 1, 0) =
          [uuidMark] ++ List.replicate 32 0 ++ [0] := by
        decide
      rw [encodeWrites, List.foldl_cons, List.foldl_cons, start, foldl_store _ _ _ _ rfl rfl,
        values, List.tail_cons, List.take_of_length_le (by simp [whole, uuidStrLen])]
      rfl

/-! ## Decoding -/

theorem charValue_mod (isSigned : Bool) (byte : Byte) :
    charValue isSigned byte % 256 = byte.val := by
  have small := byte.isLt
  rw [charValue]
  split <;> omega

theorem val_toChar (value : Int) : ((toChar value).val : Int) = value % 256 := by
  simp only [toChar, Fin.ofNat_eq_cast, Fin.val_natCast]
  omega

theorem hexToBinTable_getD {character : Nat} (small : character < 128) :
    hexToBinTable.getD character 0 = hexToBin character := by
  have all : ∀ character < 128, hexToBinTable.getD character 0 = hexToBin character := by
    decide
  exact all character small

/-- An entry of the table is the value of the digit, up to the sign of a character. -/
theorem tableEntry_mod (isSigned : Bool) (character : Byte) :
    tableEntry isSigned character % 256 = hexToBin (character.val % 128) % 256 := by
  have index : (charValue isSigned character % 128).toNat = character.val % 128 := by
    have rest := charValue_mod isSigned character
    omega
  rw [tableEntry, charValue_mod, val_toChar, index,
    hexToBinTable_getD (Nat.mod_lt _ (by decide))]

/-- Signed or not, a byte is put together from the same digits. -/
theorem decodeTurn_value (isSigned : Bool) (uuidstr : ByteString) (byteNbr : Nat) :
    (decodeTurn isSigned uuidstr byteNbr).2 =
      decodeByte (uuidstr.getD (byteNbr * 2 + 1) 0) (uuidstr.getD (byteNbr * 2 + 2) 0) := by
  have high := tableEntry_mod isSigned (uuidstr.getD (byteNbr * 2 + 1) 0)
  have low := tableEntry_mod isSigned (uuidstr.getD (byteNbr * 2 + 2) 0)
  have sum : (tableEntry isSigned (uuidstr.getD (byteNbr * 2 + 1) 0) * 16 +
        tableEntry isSigned (uuidstr.getD (byteNbr * 2 + 2) 0)) % 256 =
      (hexToBin ((uuidstr.getD (byteNbr * 2 + 1) 0).val % 128) * 16 +
        hexToBin ((uuidstr.getD (byteNbr * 2 + 2) 0).val % 128)) % 256 := by
    omega
  rw [decodeTurn, toChar, sum, decodeByte]

/-- The bytes of pairs of characters by their positions. -/
theorem decodePairs_eq (pairs : ByteString) : decodePairs pairs =
    (List.range (pairs.length / 2)).map fun k =>
      decodeByte (pairs.getD (k * 2) 0) (pairs.getD (k * 2 + 1) 0) := by
  fun_induction decodePairs pairs with
  | case1 high low rest ih =>
      have half : (high :: low :: rest).length / 2 = rest.length / 2 + 1 := by
        simp only [List.length_cons]
        omega
      have position (k : Nat) : (k + 1) * 2 = k * 2 + 1 + 1 := by omega
      rw [half, List.range_succ_eq_map, List.map_cons, List.map_map, ih]
      simp [Function.comp_def, position]
  | case2 pairs short =>
      match pairs with
      | [] => rfl
      | [_] => simp
      | high :: low :: rest => exact absurd rfl (short high low rest)

theorem decodeWrites_positions (isSigned : Bool) (uuidstr : ByteString) :
    ((decodeWrites isSigned uuidstr).map Prod.fst).Perm (List.range uuidStrLen) := by
  have positions : (decodeWrites isSigned uuidstr).map Prod.fst = 0 :: List.range' 1 16 := rfl
  rw [positions]
  decide

/-- The array is what the codec decodes. -/
theorem decodeUuidArray_eq (isSigned : Bool) (uuidstr : ByteString) :
    decodeUuidArray isSigned uuidstr = decodeUuid uuidstr := by
  rw [decodeUuidArray, decodeUuid]
  refine if_ctx_congr Iff.rfl (fun accepted => ?_) (fun _ => rfl)
  have long : uuidBinaryLen - 1 ≤ uuidstr.length :=
    accepted.1.symm.trans_le (cStr_length_le uuidstr)
  have pairs : (uuidstr.tail.take 32).length = 32 := by
    rw [List.length_take, List.length_tail]
    simp only [uuidBinaryLen] at long
    omega
  have digit {i : Nat} (inside : i < 32) :
      (uuidstr.tail.take 32).getD i 0 = uuidstr.getD (i + 1) 0 := by
    simp [List.getD_eq_getElem?_getD, List.getElem?_take_of_lt inside]
  have start : store (List.replicate uuidStrLen 0) (0, 0) =
      [0] ++ List.replicate 16 0 ++ [] := by
    decide
  rw [decodeWrites, List.foldl_cons, start, foldl_store _ _ _ _ rfl rfl, decodePairs_eq, pairs,
    List.map_map, List.append_nil, List.singleton_append]
  congr 2
  refine List.map_congr_left fun k member => ?_
  have turn : k < 16 := List.mem_range.mp member
  rw [Function.comp_apply, decodeTurn_value, digit (by omega), digit (by omega)]

/-! ## Inverses -/

theorem exists_nibble {digit : Byte} (hex : IsHexDigit digit) :
    ∃ nibble : Fin 16, digit = hexChar nibble := by
  revert digit
  decide +kernel

theorem hexDigits_decodeByte (high low : Fin 16) :
    hexDigits (decodeByte (hexChar high) (hexChar low)) = [hexChar high, hexChar low] := by
  revert high low
  decide

/-- Pairs of digits are written again as they were. -/
theorem hexDigits_decodePairs {digits : ByteString} (even : digits.length % 2 = 0)
    (hex : ∀ digit ∈ digits, IsHexDigit digit) :
    (decodePairs digits).flatMap hexDigits = digits := by
  fun_induction decodePairs digits with
  | case1 high low rest ih =>
      obtain ⟨first, rfl⟩ := exists_nibble (hex high (by simp))
      obtain ⟨second, rfl⟩ := exists_nibble (hex low (by simp))
      rw [List.flatMap_cons, hexDigits_decodeByte, ih]
      · rfl
      · simp only [List.length_cons] at even
        omega
      · exact fun digit member => hex digit (by simp [member])
  | case2 pairs short =>
      match pairs with
      | [] => rfl
      | [_] => simp at even
      | high :: low :: rest => exact absurd rfl (short high low rest)

/-- The text of a UUID is decoded to a frame, whose text it is. -/
theorem encodeUuid_decodeUuid {uuidstr : ByteString} (isText : IsUuidText uuidstr) :
    ∃ frame, decodeUuid uuidstr = some frame ∧ IsUuidFrame frame ∧
      encodeUuid frame = uuidstr := by
  obtain ⟨digits, rfl, length, hex⟩ := isText
  have nulFree : 0 ∉ uuidMark :: digits := by
    intro member
    cases List.mem_cons.mp member with
    | inl mark => exact absurd mark (by decide)
    | inr inDigits => exact absurd (hex 0 inDigits) (by decide)
  have whole : digits.take 32 = digits := List.take_of_length_le length.le
  have bytes : (decodePairs digits).length = 16 := by rw [length_decodePairs, length]
  have decoded : decodeUuid (uuidMark :: digits) = some (0 :: decodePairs digits) := by
    rw [decodeUuid, cStr_of_zero_not_mem nulFree, if_pos ⟨by simp [length, uuidBinaryLen], rfl⟩,
      List.tail_cons, whole]
  refine ⟨_, decoded, isUuidFrame_of_decodeUuid decoded, ?_⟩
  rw [encodeUuid, List.tail_cons, List.take_of_length_le (by simp [bytes, uuidStrLen]),
    hexDigits_decodePairs (by simp [length]) hex]

/-- The text of a frame. -/
theorem isUuidText_encodeUuid {frame : ByteString} (isFrame : IsUuidFrame frame) :
    IsUuidText (encodeUuid frame) := by
  have long := (looksLikeUuid_encodeUuid isFrame).1
  refine ⟨_, rfl, by simpa [encodeUuid, uuidBinaryLen] using long, fun digit member => ?_⟩
  obtain ⟨byte, _, inDigits⟩ := List.mem_flatMap.mp member
  have hex : ∀ nibble : Fin 16, IsHexDigit (hexChar nibble) := by decide
  rw [hexDigits, List.mem_pair] at inDigits
  cases inDigits with
  | inl high => exact high ▸ hex ⟨byte.val / 16, by omega⟩
  | inr low => exact low ▸ hex ⟨byte.val % 16, by omega⟩

/-- The NUL behind a text is not decoded. -/
theorem decodeUuid_terminated {uuidstr : ByteString} (shape : LooksLikeUuid uuidstr) :
    decodeUuid (uuidstr ++ [0]) = decodeUuid uuidstr := by
  obtain ⟨length, head⟩ := shape
  cases uuidstr with
  | nil => contradiction
  | cons mark digits =>
      have whole : digits.length = 32 := by simpa [uuidBinaryLen] using length
      rw [decodeUuid, decodeUuid, cStr_append_zero, List.cons_append, List.tail_cons,
        List.tail_cons, List.take_append_of_le_length whole.ge]
      rfl

/-- For every frame, `encode_uuid` writes each position of its array once and leaves a text of
33 characters, which is decoded to the frame; for every text, `decode_uuid` writes each
position of its array once and leaves a frame, whose text it is. -/
theorem uuidArrays_inverse (isSigned : Bool) :
    (∀ frame, IsUuidFrame frame →
      ((encodeWrites frame).map Prod.fst).Perm (List.range uuidBinaryLen) ∧
        ∃ uuidstr, encodeUuidArray frame = some uuidstr ∧ uuidstr.length = uuidBinaryLen ∧
          (cStr uuidstr).length = 33 ∧ IsUuidText (cStr uuidstr) ∧
          uuidstr = cStr uuidstr ++ [0] ∧ decodeUuidArray isSigned uuidstr = some frame) ∧
    ∀ uuidstr, IsUuidText uuidstr →
      ((decodeWrites isSigned uuidstr).map Prod.fst).Perm (List.range uuidStrLen) ∧
        ∃ frame, decodeUuidArray isSigned uuidstr = some frame ∧ IsUuidFrame frame ∧
          encodeUuidArray frame = some (uuidstr ++ [0]) := by
  constructor
  · intro frame isFrame
    have shape := looksLikeUuid_encodeUuid isFrame
    have copied : cStr (encodeUuid frame ++ [0]) = encodeUuid frame := by
      rw [cStr_append_zero, cStr_of_zero_not_mem (zero_not_mem_encodeUuid frame)]
    refine ⟨encodeWrites_positions frame, _, encodeUuidArray_eq isFrame, ?_⟩
    rw [copied]
    refine ⟨?_, shape.1, isUuidText_encodeUuid isFrame, rfl, ?_⟩
    · rw [List.length_append, shape.1]
      rfl
    · rw [decodeUuidArray_eq, decodeUuid_terminated shape, decodeUuid_encodeUuid isFrame]
  · intro uuidstr isText
    obtain ⟨frame, decoded, isFrame, encoded⟩ := encodeUuid_decodeUuid isText
    refine ⟨decodeWrites_positions isSigned uuidstr, frame, ?_, isFrame, ?_⟩
    · rw [decodeUuidArray_eq, decoded]
    · rw [encodeUuidArray_eq isFrame, encoded]

/-- A frame with each digit twice. -/
def digitsFrame : ByteString :=
  [0, 0x01, 0x23, 0x45, 0x67, 0x89, 0xAB, 0xCD, 0xEF, 0xFE, 0xDC, 0xBA, 0x98, 0x76, 0x54, 0x32,
    0x10]

/-- With signed characters, the text of the frame is decoded to it. -/
theorem uuidArrays_inverse_digits :
    IsUuidFrame digitsFrame ∧
      encodeUuidArray digitsFrame = some (text "@0123456789ABCDEFFEDCBA9876543210" ++ [0]) ∧
      decodeUuidArray true (text "@0123456789ABCDEFFEDCBA9876543210" ++ [0]) =
        some digitsFrame := by
  have isFrame : IsUuidFrame digitsFrame := by decide
  have written : encodeUuidArray digitsFrame =
      some (text "@0123456789ABCDEFFEDCBA9876543210" ++ [0]) := by
    decide +kernel
  obtain ⟨-, uuidstr, encoded, -, -, -, -, decoded⟩ :=
    (uuidArrays_inverse true).1 digitsFrame isFrame
  have same := Option.some.inj (encoded.symm.trans written)
  exact ⟨isFrame, written, same ▸ decoded⟩

end Cdcm.Zmq
