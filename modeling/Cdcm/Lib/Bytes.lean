import Mathlib

/-!
# Byte strings and C strings

Byte strings of any content, and the reading of a byte string as a C string,
which stops in front of the first NUL byte.
-/

namespace Cdcm

/-- An 8-bit character. -/
abbrev Byte := Fin 256

instance byteNeZero : NeZero 256 := ⟨by decide⟩

/-- A string of bytes. The order is the lexicographic one of `std::string`. -/
abbrev ByteString := List Byte

/-- The bytes of a text in the source. -/
def text (characters : String) : ByteString :=
  characters.toList.map fun character => Fin.ofNat 256 character.toNat

/-- What is left of a string that is passed on as a C string. -/
def cStr (bytes : ByteString) : ByteString :=
  bytes.takeWhile fun byte => byte ≠ 0

@[simp] theorem cStr_nil : cStr [] = [] := rfl

@[simp] theorem zero_not_mem_cStr (bytes : ByteString) : 0 ∉ cStr bytes := by
  intro member
  simpa using List.mem_takeWhile_imp member

/-- A string without NUL bytes survives as a C string. -/
theorem cStr_of_zero_not_mem {bytes : ByteString} (nulFree : 0 ∉ bytes) :
    cStr bytes = bytes := by
  refine List.takeWhile_eq_self_iff.mpr fun byte member => ?_
  have nonzero : byte ≠ 0 := fun equal => nulFree (equal ▸ member)
  simpa using nonzero

@[simp] theorem cStr_cStr (bytes : ByteString) : cStr (cStr bytes) = cStr bytes :=
  cStr_of_zero_not_mem (zero_not_mem_cStr bytes)

/-- A C string ends at a NUL byte. -/
theorem cStr_append_zero (bytes rest : ByteString) : cStr (bytes ++ 0 :: rest) = cStr bytes := by
  induction bytes with
  | nil => simp [cStr]
  | cons byte bytes ih =>
      rw [cStr, cStr] at ih ⊢
      rw [List.cons_append, List.takeWhile_cons, List.takeWhile_cons, ih]

/-- Only strings without NUL bytes survive as C strings. -/
theorem cStr_eq_self_iff {bytes : ByteString} : cStr bytes = bytes ↔ 0 ∉ bytes :=
  ⟨fun equal => equal ▸ zero_not_mem_cStr bytes, cStr_of_zero_not_mem⟩

theorem cStr_length_le (bytes : ByteString) : (cStr bytes).length ≤ bytes.length :=
  (List.takeWhile_prefix _).length_le

end Cdcm
