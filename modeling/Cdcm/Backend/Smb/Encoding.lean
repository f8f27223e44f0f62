import Cdcm.Lib.Base64
import Cdcm.Backend.Actions

/-!
# The encoder of `read_file`

`base64_encode`, which collects the bits of three bytes in a container of 32 bits and writes
letters into a string of the length that it has computed in front of the loop.  A write beside
that string has no result.
-/

namespace Cdcm.Backend.Smb

/-! ## The code -/

/-- `base64_encoded_length`. -/
def base64EncodedLength (origLen : Nat) : Nat := ((origLen + 2) / 3) <<< 2

/-- The variables of `base64_encode`. -/
structure Encoder where
  bitsContainer : Nat
  charCount : Nat
  outPos : Nat
  ret : ByteString

/-- `ret[outPos++] = letter`. -/
def Encoder.put (encoder : Encoder) (letter : Byte) : Option Encoder :=
  if encoder.outPos < encoder.ret.length then
    some { encoder with
      ret := encoder.ret.set encoder.outPos letter
      outPos := encoder.outPos + 1 }
  else none

/-- `base64Alphabet[(bitsContainer >> shift) & 0x3f]`. -/
def sextet (bitsContainer shift : Nat) : Byte :=
  base64Alphabet.getD ((bitsContainer >>> shift) &&& 0x3f) 0

/-- A turn of the loop. -/
def Encoder.scan (encoder : Encoder) (currByte : Byte) : Option Encoder := do
  let bitsContainer := encoder.bitsContainer ||| currByte.val
  let charCount := encoder.charCount + 1
  if charCount = 3 then
    let encoder ← encoder.put (sextet bitsContainer 18)
    let encoder ← encoder.put (sextet bitsContainer 12)
    let encoder ← encoder.put (sextet bitsContainer 6)
    let encoder ← encoder.put (sextet bitsContainer 0)
    return { encoder with bitsContainer := 0, charCount := 0 }
  else
    return { encoder with
      bitsContainer := (bitsContainer <<< 8) % 2 ^ 32
      charCount := charCount }

/-- The bytes that are left behind the loop. -/
def Encoder.finish (encoder : Encoder) : Option Encoder :=
  if encoder.charCount ≠ 0 then do
    let bitsContainer := (encoder.bitsContainer <<< (16 - 8 * encoder.charCount)) % 2 ^ 32
    let encoder ← encoder.put (sextet bitsContainer 18)
    let encoder ← encoder.put (sextet bitsContainer 12)
    let encoder ← encoder.put
      (if encoder.charCount = 1 then Base64.pad else sextet bitsContainer 6)
    encoder.put Base64.pad
  else some encoder

/-- `base64_encode`, with the writes that it makes. -/
def base64EncodeBuffer (inBuf : ByteString) : Option ByteString :=
  if inBuf = [] then some []
  else do
    let encoder : Encoder := ⟨0, 0, 0, List.replicate (base64EncodedLength inBuf.length) 0⟩
    let encoder ← inBuf.foldlM Encoder.scan encoder
    let encoder ← encoder.finish
    return encoder.ret

/-! ## The containers -/

/-- A byte goes into the low bits of a container. -/
theorem or_byte (bits : Nat) (byte : Byte) :
    (bits <<< 8) ||| byte.val = bits * 2 ^ 8 + byte.val := by
  rw [← Nat.shiftLeft_add_eq_or_of_lt byte.isLt, Nat.shiftLeft_eq]

theorem sextet_eq (bits shift : Nat) : sextet bits shift = base64Letter (bits / 2 ^ shift) := by
  rw [sextet, base64Letter, Nat.shiftRight_eq_div_pow]
  congr 1
  exact Nat.and_two_pow_sub_one_eq_mod _ 6

/-- An encoder that has written some letters, with room for a number of others. -/
def encoderAt (bitsContainer charCount : Nat) (done : ByteString) (room : Nat) : Encoder :=
  ⟨bitsContainer, charCount, done.length, done ++ List.replicate room 0⟩

@[simp] theorem encoderAt_bitsContainer (bitsContainer charCount : Nat) (done : ByteString)
    (room : Nat) : (encoderAt bitsContainer charCount done room).bitsContainer = bitsContainer :=
  rfl

@[simp] theorem encoderAt_charCount (bitsContainer charCount : Nat) (done : ByteString)
    (room : Nat) : (encoderAt bitsContainer charCount done room).charCount = charCount := rfl

/-- The text of an encoder that has no room left. -/
@[simp] theorem encoderAt_ret (bitsContainer charCount : Nat) (done : ByteString) :
    (encoderAt bitsContainer charCount done 0).ret = done := List.append_nil done

/-- A letter goes behind those that have been written. -/
theorem put_encoderAt (bitsContainer charCount : Nat) (done : ByteString) (room : Nat)
    (letter : Byte) :
    (encoderAt bitsContainer charCount done (room + 1)).put letter =
      some (encoderAt bitsContainer charCount (done ++ [letter]) room) := by
  simp [encoderAt, Encoder.put, List.replicate_succ]

/-- A container of 24 bits is shifted without loss. -/
theorem shiftLeft_lt {bits : Nat} (small : bits < 2 ^ 24) : bits <<< 8 < 2 ^ 32 := by
  rw [Nat.shiftLeft_eq]
  omega

/-- A byte that does not end a group. -/
theorem scan_inside {bits charCount : Nat} {byte : Byte} (inside : charCount < 2)
    (small : bits * 2 ^ 8 + byte.val < 2 ^ 24) (done : ByteString) (room : Nat) :
    (encoderAt (bits <<< 8) charCount done room).scan byte =
      some (encoderAt ((bits * 2 ^ 8 + byte.val) <<< 8) (charCount + 1) done room) := by
  have open_ : charCount + 1 ≠ 3 := by omega
  have fits := shiftLeft_lt small
  simp only [Encoder.scan, encoderAt_bitsContainer, encoderAt_charCount, or_byte, if_neg open_]
  rw [Nat.mod_eq_of_lt fits]
  rfl

/-- The four letters of three bytes. -/
def letters (bits : Nat) : ByteString :=
  [base64Letter (bits / 2 ^ 18), base64Letter (bits / 2 ^ 12), base64Letter (bits / 2 ^ 6),
    base64Letter bits]

/-- The byte that ends a group. -/
theorem scan_last (bits : Nat) (byte : Byte) (done : ByteString) (room : Nat) :
    (encoderAt (bits <<< 8) 2 done (room + 4)).scan byte =
      some (encoderAt 0 0 (done ++ letters (bits * 2 ^ 8 + byte.val)) room) := by
  have puts (letter : Byte) (done : ByteString) (room : Nat) :=
    put_encoderAt (bits <<< 8) 2 done room letter
  simp only [Encoder.scan, encoderAt_bitsContainer, encoderAt_charCount, or_byte, puts,
    Option.bind_eq_bind, Option.bind_some, sextet_eq]
  simp [encoderAt, letters]

/-- What `base64_encode` has behind a whole group. -/
theorem base64Encode_group (first second third : Byte) (rest : ByteString) :
    base64Encode (first :: second :: third :: rest) =
      letters ((first.val * 2 ^ 8 + second.val) * 2 ^ 8 + third.val) ++ base64Encode rest := by
  have bits : first.val * 2 ^ 16 + second.val * 2 ^ 8 + third.val =
      (first.val * 2 ^ 8 + second.val) * 2 ^ 8 + third.val := by ring
  rw [base64Encode, bits]
  rfl

theorem scan_first (first : Byte) (done : ByteString) (room : Nat) :
    (encoderAt 0 0 done room).scan first = some (encoderAt (first.val <<< 8) 1 done room) := by
  have one := @scan_inside 0 0 first (by omega) (by omega) done room
  simpa only [Nat.zero_shiftLeft, Nat.zero_mul, Nat.zero_add] using one

theorem scan_second (first second : Byte) (done : ByteString) (room : Nat) :
    (encoderAt (first.val <<< 8) 1 done room).scan second =
      some (encoderAt ((first.val * 2 ^ 8 + second.val) <<< 8) 2 done room) :=
  @scan_inside first.val 1 second (by omega) (by omega) done room

/-- A whole group. -/
theorem scan_group (first second third : Byte) (done : ByteString) (room : Nat) :
    [first, second, third].foldlM Encoder.scan (encoderAt 0 0 done (room + 4)) =
      some (encoderAt 0 0
        (done ++ letters ((first.val * 2 ^ 8 + second.val) * 2 ^ 8 + third.val)) room) := by
  have three := scan_last (first.val * 2 ^ 8 + second.val) third done room
  simp only [List.foldlM_cons, List.foldlM_nil, Option.bind_eq_bind, scan_first, scan_second,
    three, Option.bind_some]
  rfl

/-- The letters of a last group. -/
theorem finish_group (bits : Nat) {charCount : Nat} (open_ : charCount ≠ 0) (done : ByteString) :
    (encoderAt bits charCount done 4).finish =
      some (encoderAt bits charCount (done ++
        [base64Letter (bits <<< (16 - 8 * charCount) % 2 ^ 32 / 2 ^ 18),
          base64Letter (bits <<< (16 - 8 * charCount) % 2 ^ 32 / 2 ^ 12),
          if charCount = 1 then Base64.pad
            else base64Letter (bits <<< (16 - 8 * charCount) % 2 ^ 32 / 2 ^ 6),
          Base64.pad]) 0) := by
  have puts (letter : Byte) (done : ByteString) (room : Nat) :=
    put_encoderAt bits charCount done room letter
  simp only [Encoder.finish, encoderAt_bitsContainer, encoderAt_charCount, if_pos open_, puts,
    Option.bind_eq_bind, Option.bind_some, sextet_eq, List.append_assoc]
  rfl

/-- A last group of one byte. -/
theorem finish_one (first : Byte) (done : ByteString) :
    (encoderAt (first.val <<< 8) 1 done 4).finish =
      some (encoderAt (first.val <<< 8) 1 (done ++ base64Encode [first]) 0) := by
  have bits : first.val <<< 8 <<< (16 - 8 * 1) % 2 ^ 32 = first.val * 2 ^ 16 := by
    simp only [Nat.shiftLeft_eq]
    omega
  rw [finish_group _ one_ne_zero, bits, base64Encode, if_pos rfl, Base64.pad]

/-- A last group of two bytes. -/
theorem finish_two (first second : Byte) (done : ByteString) :
    (encoderAt ((first.val * 2 ^ 8 + second.val) <<< 8) 2 done 4).finish =
      some (encoderAt ((first.val * 2 ^ 8 + second.val) <<< 8) 2
        (done ++ base64Encode [first, second]) 0) := by
  have bits : (first.val * 2 ^ 8 + second.val) <<< 8 <<< (16 - 8 * 2) % 2 ^ 32 =
      first.val * 2 ^ 16 + second.val * 2 ^ 8 := by
    simp only [Nat.shiftLeft_eq]
    omega
  rw [finish_group _ two_ne_zero, bits, base64Encode, if_neg (by decide), Base64.pad]

/-- The encoder over whole groups and what is left behind them. -/
theorem scan_all (inBuf done : ByteString) :
    ((inBuf.foldlM Encoder.scan (encoderAt 0 0 done (base64EncodedLength inBuf.length))).bind
        Encoder.finish).map Encoder.ret = some (done ++ base64Encode inBuf) := by
  induction inBuf using base64Encode.induct generalizing done with
  | case1 => simp [Encoder.finish, encoderAt, base64EncodedLength, base64Encode]
  | case2 first =>
      have room : base64EncodedLength [first].length = 4 := by simp [base64EncodedLength]
      rw [room, List.foldlM_cons, scan_first]
      simp only [List.foldlM_nil, Option.bind_eq_bind, Option.bind_some, Option.pure_def,
        finish_one, Option.map_some, encoderAt_ret]
  | case3 first second =>
      have room : base64EncodedLength [first, second].length = 4 := by
        simp [base64EncodedLength]
      rw [room, List.foldlM_cons, scan_first]
      simp only [List.foldlM_cons, List.foldlM_nil, Option.bind_eq_bind, Option.bind_some,
        Option.pure_def, scan_second, finish_two, Option.map_some, encoderAt_ret]
  | case4 first second third rest ih =>
      have room : base64EncodedLength (first :: second :: third :: rest).length =
          base64EncodedLength rest.length + 4 := by
        simp only [base64EncodedLength, List.length_cons, Nat.shiftLeft_eq]
        omega
      have group := scan_group first second third done (base64EncodedLength rest.length)
      rw [room, show first :: second :: third :: rest = [first, second, third] ++ rest from rfl,
        List.foldlM_append, group, Option.bind_eq_bind, Option.bind_some, ih]
      rw [List.cons_append, List.cons_append, List.cons_append, List.nil_append,
        base64Encode_group, List.append_assoc]

/-- `base64_encode` makes no write beside its string, and gives the encoded bytes. -/
theorem base64EncodeBuffer_eq (inBuf : ByteString) :
    base64EncodeBuffer inBuf = some (base64Encode inBuf) := by
  rw [base64EncodeBuffer]
  split
  next empty =>
    rw [empty]
    rfl
  next =>
    have all := scan_all inBuf []
    rw [List.nil_append] at all
    refine Eq.trans ?_ all
    change (inBuf.foldlM Encoder.scan (encoderAt 0 0 [] (base64EncodedLength inBuf.length))).bind
      (fun encoder => encoder.finish.bind fun encoder => some encoder.ret) = _
    cases inBuf.foldlM Encoder.scan (encoderAt 0 0 [] (base64EncodedLength inBuf.length)) with
    | none => rfl
    | some encoder =>
        cases finished : encoder.finish with
        | none => simp [finished]
        | some encoder => simp [finished]

/-! ## The encoded text -/

theorem value?_base64Letter (bits : Nat) :
    Base64.value? (base64Letter bits) = some (bits % 64) := by
  have all : ∀ number : Fin 64,
      Base64.value? (base64Alphabet.getD number.val 0) = some number.val := by decide +kernel
  exact all ⟨bits % 64, Nat.mod_lt _ (by decide)⟩

/-- Letters are not the padding. -/
theorem base64Letter_ne_pad (bits : Nat) : base64Letter bits ≠ Base64.pad := by
  intro same
  have number := value?_base64Letter bits
  rw [same] at number
  contradiction

theorem base64Letter_ne_zero (bits : Nat) : base64Letter bits ≠ 0 := by
  intro same
  have number := value?_base64Letter bits
  rw [same] at number
  contradiction

/-- The number of bytes that are missing in the last group. -/
def missing (length : Nat) : Nat := (3 - length % 3) % 3

/-- The text has one letter for each six bits, and then the padding of the last group. -/
theorem base64Encode_padded (bytes : ByteString) :
    ∃ front, base64Encode bytes = front ++ List.replicate (missing bytes.length) Base64.pad ∧
      (∀ letter ∈ front, letter ≠ Base64.pad ∧ letter ≠ 0) ∧
      (base64Encode bytes).length = 4 * ((bytes.length + 2) / 3) := by
  have letter (bits : Nat) := And.intro (base64Letter_ne_pad bits) (base64Letter_ne_zero bits)
  induction bytes using base64Encode.induct with
  | case1 => exact ⟨[], rfl, by simp, rfl⟩
  | case2 first =>
      refine ⟨(base64Encode [first]).take 2, rfl, ?_, ?_⟩
      · simp [base64Encode, letter]
      · simp [base64Encode]
  | case3 first second =>
      refine ⟨(base64Encode [first, second]).take 3, rfl, ?_, ?_⟩
      · simp [base64Encode, letter]
      · simp [base64Encode]
  | case4 first second third rest ih =>
      obtain ⟨front, padded, clean, length⟩ := ih
      have same : missing (first :: second :: third :: rest).length = missing rest.length := by
        simp [missing, Nat.add_assoc]
      rw [base64Encode_group, same]
      refine ⟨letters _ ++ front, by rw [padded, List.append_assoc], ?_, ?_⟩
      · simp only [List.mem_append]
        intro other member
        cases member with
        | inl here =>
            simp only [letters, List.mem_cons, List.not_mem_nil, or_false] at here
            obtain rfl | rfl | rfl | rfl := here <;> exact letter _
        | inr later => exact clean other later
      · simp only [List.length_append, length, letters, List.length_cons, List.length_nil]
        omega

/-- The letters of three bytes stand for them. -/
theorem fullGroup_letters (first second third : Byte) :
    Base64.fullGroup
        (base64Letter (((first.val * 2 ^ 8 + second.val) * 2 ^ 8 + third.val) / 2 ^ 18))
        (base64Letter (((first.val * 2 ^ 8 + second.val) * 2 ^ 8 + third.val) / 2 ^ 12))
        (base64Letter (((first.val * 2 ^ 8 + second.val) * 2 ^ 8 + third.val) / 2 ^ 6))
        (base64Letter ((first.val * 2 ^ 8 + second.val) * 2 ^ 8 + third.val)) =
      some [first, second, third] := by
  have small : (first.val * 2 ^ 8 + second.val) * 2 ^ 8 + third.val < 2 ^ 24 := by omega
  rw [Base64.fullGroup_eq small (value?_base64Letter _) (value?_base64Letter _)
    (value?_base64Letter _) (value?_base64Letter _)]
  have one : ((first.val * 2 ^ 8 + second.val) * 2 ^ 8 + third.val) / 2 ^ 16 = first.val := by
    omega
  have two : ((first.val * 2 ^ 8 + second.val) * 2 ^ 8 + third.val) / 2 ^ 8 % 256 =
      second.val := by omega
  have three : ((first.val * 2 ^ 8 + second.val) * 2 ^ 8 + third.val) % 256 = third.val := by
    omega
  simp only [Option.some.injEq, List.cons.injEq, and_true, Fin.ext_iff, Fin.val_ofNat]
  omega

/-- Nothing is encoded by no letters only. -/
theorem base64Encode_ne_nil {bytes : ByteString} (some_ : bytes ≠ []) :
    base64Encode bytes ≠ [] := by
  have length := (base64Encode_padded bytes).choose_spec.2.2
  intro empty
  have positive := List.length_pos_iff.mpr some_
  rw [empty, List.length_nil] at length
  omega

/-- Decoding the text gives the bytes. -/
theorem decode_base64Encode (bytes : ByteString) :
    Base64.decode (base64Encode bytes) = some bytes := by
  induction bytes using base64Encode.induct with
  | case1 => rfl
  | case2 first =>
      rw [base64Encode, Base64.decode_last]
      refine (Base64.lastGroup_one first.isLt (value?_base64Letter _)
        (value?_base64Letter _)).trans ?_
      simp
  | case3 first second =>
      have small : first.val * 2 ^ 8 + second.val < 2 ^ 16 := by omega
      have shifted : first.val * 2 ^ 16 + second.val * 2 ^ 8 =
          (first.val * 2 ^ 8 + second.val) * 2 ^ 8 := by omega
      have high : (first.val * 2 ^ 8 + second.val) / 2 ^ 8 % 256 = first.val := by omega
      have low : (first.val * 2 ^ 8 + second.val) % 256 = second.val := by omega
      rw [base64Encode, shifted, Base64.decode_last]
      refine (Base64.lastGroup_two small (base64Letter_ne_pad _) (value?_base64Letter _)
        (value?_base64Letter _) (value?_base64Letter _)).trans ?_
      simp only [Option.some.injEq, List.cons.injEq, and_true, Fin.ext_iff, Fin.val_ofNat]
      exact ⟨high, low⟩
  | case4 first second third rest ih =>
      have group := fullGroup_letters first second third
      rw [base64Encode_group, letters]
      by_cases last : rest = []
      · rw [last, base64Encode, List.append_nil, Base64.decode_last,
          Base64.lastGroup_of_ne_pad (base64Letter_ne_pad _), group]
      · change Base64.decode (_ :: _ :: _ :: _ :: base64Encode rest) = _
        rw [Base64.decode_cons (base64Encode_ne_nil last), group, ih]
        rfl

/-- `base64_encode` makes all its writes inside of its string, and gives a text of the right
length that has no byte left from the start, is padded in its last group only, and decodes to
the bytes. -/
theorem base64EncodeBuffer_correct (inBuf : ByteString) :
    ∃ ret, base64EncodeBuffer inBuf = some ret ∧
      ret.length = 4 * ((inBuf.length + 2) / 3) ∧ 0 ∉ ret ∧
      (∃ front, ret = front ++ List.replicate ((3 - inBuf.length % 3) % 3) Base64.pad ∧
        Base64.pad ∉ front) ∧
      Base64.decode ret = some inBuf := by
  obtain ⟨front, padded, clean, length⟩ := base64Encode_padded inBuf
  refine ⟨base64Encode inBuf, base64EncodeBuffer_eq inBuf, length, ?_,
    ⟨front, padded, fun member => (clean _ member).1 rfl⟩, decode_base64Encode inBuf⟩
  rw [padded, List.mem_append, not_or]
  refine ⟨fun member => (clean _ member).2 rfl, fun member => ?_⟩
  have zero := List.eq_of_mem_replicate member
  contradiction

example : base64EncodeBuffer (text "light w") = some (text "bGlnaHQgdw==") := by decide

end Cdcm.Backend.Smb
