import Cdcm.Lib.Bytes

/-!
# Base64

Decoding of base64 with the standard alphabet: groups of four letters stand for three bytes,
and the last group may be padded, where the bits behind the padding are zero.
-/

namespace Cdcm.Base64

/-- The padding `=`. -/
def pad : Byte := 61

/-- The number of a letter of the alphabet `A`-`Z`, `a`-`z`, `0`-`9`, `+`, `/`. -/
def value? (letter : Byte) : Option Nat :=
  if 65 ≤ letter.val ∧ letter.val ≤ 90 then some (letter.val - 65)
  else if 97 ≤ letter.val ∧ letter.val ≤ 122 then some (letter.val - 97 + 26)
  else if 48 ≤ letter.val ∧ letter.val ≤ 57 then some (letter.val - 48 + 52)
  else if letter = 43 then some 62
  else if letter = 47 then some 63
  else none

/-- The bytes of a group without padding. -/
def fullGroup (a b c d : Byte) : Option ByteString := do
  let bits := (← value? a) * 2 ^ 18 + (← value? b) * 2 ^ 12 + (← value? c) * 2 ^ 6 + (← value? d)
  return [Fin.ofNat 256 (bits / 2 ^ 16), Fin.ofNat 256 (bits / 2 ^ 8), Fin.ofNat 256 bits]

/-- The bytes of the last group. -/
def lastGroup (a b c d : Byte) : Option ByteString :=
  if c = pad ∧ d = pad then do
    let bits := (← value? a) * 2 ^ 6 + (← value? b)
    if bits % 2 ^ 4 = 0 then return [Fin.ofNat 256 (bits / 2 ^ 4)] else none
  else if d = pad then do
    let bits := (← value? a) * 2 ^ 12 + (← value? b) * 2 ^ 6 + (← value? c)
    if bits % 2 ^ 2 = 0 then
      return [Fin.ofNat 256 (bits / 2 ^ 10), Fin.ofNat 256 (bits / 2 ^ 2)]
    else none
  else fullGroup a b c d

/-- The bytes for a text in base64. -/
def decode : ByteString → Option ByteString
  | [] => some []
  | [a, b, c, d] => lastGroup a b c d
  | a :: b :: c :: d :: rest => do return (← fullGroup a b c d) ++ (← decode rest)
  | _ => none

/-- The last group. -/
theorem decode_last (a b c d : Byte) : decode [a, b, c, d] = lastGroup a b c d := by
  rw [decode]

/-- A group in front of more groups. -/
theorem decode_cons {a b c d : Byte} {rest : ByteString} (more : rest ≠ []) :
    decode (a :: b :: c :: d :: rest) = do return (← fullGroup a b c d) ++ (← decode rest) := by
  cases rest with
  | nil => contradiction
  | cons e rest => rw [decode]; exact List.cons_ne_nil e rest

/-- A last group without padding. -/
theorem lastGroup_of_ne_pad {a b c d : Byte} (unpadded : d ≠ pad) :
    lastGroup a b c d = fullGroup a b c d := by
  rw [lastGroup, if_neg fun both => unpadded both.2, if_neg unpadded]

section LastGroup

variable {a b c : Byte} {x y z : Nat}

/-- A last group of two letters. -/
theorem lastGroup_pads (first : value? a = some x) (second : value? b = some y)
    (zero : (x * 2 ^ 6 + y) % 2 ^ 4 = 0) :
    lastGroup a b pad pad = some [Fin.ofNat 256 ((x * 2 ^ 6 + y) / 2 ^ 4)] := by
  rw [lastGroup, if_pos ⟨rfl, rfl⟩, first, second]
  change (if (x * 2 ^ 6 + y) % 2 ^ 4 = 0 then _ else _) = _
  rw [if_pos zero]
  rfl

/-- A last group of three letters. -/
theorem lastGroup_pad (unpadded : c ≠ pad) (first : value? a = some x)
    (second : value? b = some y) (third : value? c = some z)
    (zero : (x * 2 ^ 12 + y * 2 ^ 6 + z) % 2 ^ 2 = 0) :
    lastGroup a b c pad = some [Fin.ofNat 256 ((x * 2 ^ 12 + y * 2 ^ 6 + z) / 2 ^ 10),
      Fin.ofNat 256 ((x * 2 ^ 12 + y * 2 ^ 6 + z) / 2 ^ 2)] := by
  rw [lastGroup, if_neg fun both => unpadded both.1, if_pos rfl, first, second, third]
  change (if (x * 2 ^ 12 + y * 2 ^ 6 + z) % 2 ^ 2 = 0 then _ else _) = _
  rw [if_pos zero]
  rfl

/-- Numbers of letters that are the digits of one byte. -/
theorem lastGroup_one {bits : Nat} (small : bits < 2 ^ 8)
    (first : value? a = some (bits * 2 ^ 16 / 2 ^ 18 % 64))
    (second : value? b = some (bits * 2 ^ 16 / 2 ^ 12 % 64)) :
    lastGroup a b pad pad = some [Fin.ofNat 256 bits] := by
  have sum : bits * 2 ^ 16 / 2 ^ 18 % 64 * 2 ^ 6 + bits * 2 ^ 16 / 2 ^ 12 % 64 =
      bits * 2 ^ 4 := by omega
  have byte : bits * 2 ^ 4 / 2 ^ 4 = bits := by omega
  rw [lastGroup_pads first second (by omega), sum, byte]

/-- Numbers of letters that are the digits of two bytes. -/
theorem lastGroup_two {bits : Nat} (small : bits < 2 ^ 16) (unpadded : c ≠ pad)
    (first : value? a = some (bits * 2 ^ 8 / 2 ^ 18 % 64))
    (second : value? b = some (bits * 2 ^ 8 / 2 ^ 12 % 64))
    (third : value? c = some (bits * 2 ^ 8 / 2 ^ 6 % 64)) :
    lastGroup a b c pad = some [Fin.ofNat 256 (bits / 2 ^ 8), Fin.ofNat 256 bits] := by
  have sum : bits * 2 ^ 8 / 2 ^ 18 % 64 * 2 ^ 12 + bits * 2 ^ 8 / 2 ^ 12 % 64 * 2 ^ 6 +
      bits * 2 ^ 8 / 2 ^ 6 % 64 = bits * 2 ^ 2 := by omega
  have high : bits * 2 ^ 2 / 2 ^ 10 = bits / 2 ^ 8 := by omega
  have low : bits * 2 ^ 2 / 2 ^ 2 = bits := by omega
  rw [lastGroup_pad unpadded first second third (by omega), sum, high, low]

end LastGroup

/-- Numbers of letters that are the digits of three bytes. -/
theorem fullGroup_eq {a b c d : Byte} {bits : Nat} (small : bits < 2 ^ 24)
    (first : value? a = some (bits / 2 ^ 18 % 64)) (second : value? b = some (bits / 2 ^ 12 % 64))
    (third : value? c = some (bits / 2 ^ 6 % 64)) (fourth : value? d = some (bits % 64)) :
    fullGroup a b c d =
      some [Fin.ofNat 256 (bits / 2 ^ 16), Fin.ofNat 256 (bits / 2 ^ 8), Fin.ofNat 256 bits] := by
  have sum : bits / 2 ^ 18 % 64 * 2 ^ 18 + bits / 2 ^ 12 % 64 * 2 ^ 12 +
      bits / 2 ^ 6 % 64 * 2 ^ 6 + bits % 64 = bits := by omega
  simp only [fullGroup, first, second, third, fourth, Option.bind_eq_bind, Option.bind_some, sum]
  rfl

end Cdcm.Base64
