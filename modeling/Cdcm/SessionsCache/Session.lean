import Cdcm.Lib.Bytes

/-!
# Sessions and their shared-memory form

Sessions and credentials as the program passes them around, the strings the
shared segment keeps of them, and the conversions of `shared_mem_converters.cpp`
between the two.  The text form of a UUID is a library matter and a parameter.
-/

namespace Cdcm.SessionsCache

/-- A 128-bit UUID; the nil UUID is 0. -/
abbrev Uuid := Fin (2 ^ 128)

instance uuidNeZero : NeZero (2 ^ 128) := ⟨by decide⟩

/-- `boost::uuids::to_string` and `string_generator`, which throws on text that
is no UUID. -/
structure UuidText where
  toString : Uuid → ByteString
  parse : ByteString → Option Uuid

/-- The generator reads what `to_string` wrote. -/
structure UuidText.Lawful (uuidText : UuidText) : Prop where
  parse_toString : ∀ uuid, uuidText.parse (uuidText.toString uuid) = some uuid

/-- `credentials`. -/
structure Credentials where
  domain : ByteString
  username : ByteString
  password : ByteString
  workstation : ByteString
  deriving DecidableEq, Repr

/-- `session`. -/
structure Session where
  uuid : Uuid
  remote : ByteString
  creds : Credentials
  deriving DecidableEq, Repr

/-- `shared_mem_session`: every string with its full length. -/
structure SharedMemSession where
  uuid : ByteString
  remote : ByteString
  creds : Credentials
  deriving DecidableEq, Repr

section Convert

variable (uuidText : UuidText)

/-- `session::idstr`. -/
def Session.idstr (session : Session) : ByteString :=
  uuidText.toString session.uuid

/-- `session_converter::convert` into the shared segment. -/
def toShared (session : Session) : SharedMemSession :=
  ⟨session.idstr uuidText, session.remote, session.creds⟩

/-- `session_converter::convert` out of the shared segment; a null pointer when
the id is no UUID. -/
def ofShared (shared : SharedMemSession) : Option Session := do
  let uuid ← uuidText.parse shared.uuid
  return ⟨uuid, shared.remote, shared.creds⟩

/-- A session comes out of the segment as it went in. -/
theorem ofShared_toShared (lawful : uuidText.Lawful) (session : Session) :
    ofShared uuidText (toShared uuidText session) = some session := by
  simp [ofShared, toShared, Session.idstr, lawful.parse_toString]

end Convert

/-! ## The canonical text form -/

/-- A lower-case hexadecimal digit. -/
def lowerHexChar (nibble : Nat) : Byte :=
  [48, 49, 50, 51, 52, 53, 54, 55, 56, 57, 97, 98, 99, 100, 101, 102].getD nibble 0

/-- The value of a lower-case hexadecimal digit. -/
def lowerHexValue (character : Byte) : Nat :=
  if character < 97 then character - 48 else character - 87

/-- The last digits of a number, most significant first. -/
def hexOfNat : Nat → Nat → ByteString
  | 0, _ => []
  | digits + 1, value => hexOfNat digits (value / 16) ++ [lowerHexChar (value % 16)]

/-- The number that digits write. -/
def natOfHex (digits : ByteString) : Nat :=
  digits.foldl (fun value digit => value * 16 + lowerHexValue digit) 0

/-- Cut digits into groups of the given sizes, with dashes between them. -/
def dashed : List Nat → ByteString → ByteString
  | [], digits => digits
  | size :: sizes, digits =>
      digits.take size ++ 45 :: dashed sizes (digits.drop size)

/-- The canonical form of RFC 4122: 32 digits in groups of 8, 4, 4, 4 and 12. -/
def UuidText.canonical : UuidText where
  toString uuid := dashed [8, 4, 4, 4] (hexOfNat 32 uuid.val)
  parse characters :=
    let digits := characters.filter (· ≠ 45)
    if digits.length = 32 then some (Fin.ofNat _ (natOfHex digits)) else none

theorem lowerHexValue_lowerHexChar (nibble : Fin 16) :
    lowerHexValue (lowerHexChar nibble) = nibble ∧ lowerHexChar nibble ≠ 45 := by
  revert nibble
  decide

theorem length_hexOfNat (digits value : Nat) :
    (hexOfNat digits value).length = digits := by
  induction digits generalizing value with
  | zero => rfl
  | succ digits ih => simp [hexOfNat, ih]

theorem dash_not_mem_hexOfNat (digits value : Nat) :
    ∀ digit ∈ hexOfNat digits value, digit ≠ 45 := by
  induction digits generalizing value with
  | zero => simp [hexOfNat]
  | succ digits ih =>
      intro digit member
      rcases List.mem_append.mp member with member | member
      · exact ih _ digit member
      · rw [List.mem_singleton.mp member]
        exact (lowerHexValue_lowerHexChar ⟨value % 16, by omega⟩).2

theorem natOfHex_hexOfNat (digits value : Nat) :
    natOfHex (hexOfNat digits value) = value % 16 ^ digits := by
  induction digits generalizing value with
  | zero => simp [hexOfNat, natOfHex, Nat.mod_one]
  | succ digits ih =>
      have last := (lowerHexValue_lowerHexChar ⟨value % 16, by omega⟩).1
      simp only at last
      simp only [natOfHex] at ih
      rw [hexOfNat, natOfHex, List.foldl_append, ih]
      simp only [List.foldl_cons, List.foldl_nil, last]
      rw [Nat.pow_succ', Nat.mod_mul]
      omega

/-- Dropping the dashes gives the digits back. -/
theorem filter_dashed (sizes : List Nat) {digits : ByteString}
    (noDash : ∀ digit ∈ digits, digit ≠ 45) :
    (dashed sizes digits).filter (· ≠ 45) = digits := by
  induction sizes generalizing digits with
  | nil => exact List.filter_eq_self.mpr (by simpa [dashed] using noDash)
  | cons size sizes ih =>
      have front : (digits.take size).filter (· ≠ 45) = digits.take size :=
        List.filter_eq_self.mpr fun digit member => by
          simpa using noDash digit (List.mem_of_mem_take member)
      have rest : ∀ digit ∈ digits.drop size, digit ≠ 45 := fun digit member =>
        noDash digit (List.mem_of_mem_drop member)
      rw [dashed, List.filter_append, List.filter_cons_of_neg (by simp), front, ih rest]
      exact List.take_append_drop size digits

theorem lowerHexChar_ne_zero (nibble : Fin 16) : lowerHexChar nibble ≠ 0 := by
  revert nibble
  decide

theorem zero_not_mem_hexOfNat (digits value : Nat) : 0 ∉ hexOfNat digits value := by
  induction digits generalizing value with
  | zero => simp [hexOfNat]
  | succ digits ih =>
      intro member
      rcases List.mem_append.mp member with member | member
      · exact ih _ member
      · exact lowerHexChar_ne_zero ⟨value % 16, by omega⟩ (List.mem_singleton.mp member).symm

theorem zero_not_mem_dashed (sizes : List Nat) {digits : ByteString} (nulFree : 0 ∉ digits) :
    0 ∉ dashed sizes digits := by
  induction sizes generalizing digits with
  | nil => exact nulFree
  | cons size sizes ih =>
      intro member
      rcases List.mem_append.mp member with front | rest
      · exact nulFree (List.mem_of_mem_take front)
      · rcases List.mem_cons.mp rest with dash | rest
        · exact absurd dash (by decide)
        · exact ih (fun later => nulFree (List.mem_of_mem_drop later)) rest

/-- The canonical text is a C string. -/
theorem UuidText.canonical_nulFree (uuid : Uuid) :
    0 ∉ UuidText.canonical.toString uuid :=
  zero_not_mem_dashed _ (zero_not_mem_hexOfNat 32 uuid.val)

theorem UuidText.canonical_lawful : UuidText.canonical.Lawful where
  parse_toString uuid := by
    have inRange : uuid.val % 16 ^ 32 = uuid.val :=
      Nat.mod_eq_of_lt (uuid.isLt.trans_eq (by norm_num))
    simp only [UuidText.canonical, filter_dashed _ (dash_not_mem_hexOfNat 32 uuid.val)]
    rw [if_pos (length_hexOfNat _ _), natOfHex_hexOfNat, inRange]
    exact congrArg some (Fin.ext (Nat.mod_eq_of_lt uuid.isLt))

end Cdcm.SessionsCache
