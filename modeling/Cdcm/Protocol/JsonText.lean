import Cdcm.Protocol.Json

/-!
# JSON text

The text that `to_string` writes, compact or indented, as an instance of the
library interface.  Its parser reads a given list of texts only; a double is
written as the number of its bits.
-/

namespace Cdcm.Json

/-- The decimal digits of a number. -/
def decimal (value : Nat) : ByteString := text (Nat.repr value)

/-- How a byte is written inside a string. -/
def escape (byte : Byte) : ByteString :=
  if byte = 34 then text "\\\""
  else if byte = 92 then text "\\\\"
  else if byte < 32 ∨ byte = 127 then
    text "\\u00" ++
      [byte.val / 16, byte.val % 16].map fun digit =>
        (text "0123456789abcdef").getD digit 48
  else [byte]

/-- A string in quotes. -/
def quoted (value : ByteString) : ByteString :=
  34 :: value.flatMap escape ++ [34]

/-- A line break and the indentation of a depth; nothing in compact text. -/
def lineBreak (indent : Option Nat) (depth : Nat) : ByteString :=
  match indent with
  | none => []
  | some width => 10 :: List.replicate (width * depth) 32

/-- What stands between a key and its value. -/
def colon (indent : Option Nat) : ByteString :=
  match indent with
  | none => text ":"
  | some _ => text ": "

mutual

/-- The text of a value at a depth. -/
def Value.print (indent : Option Nat) (depth : Nat) : Value → ByteString
  | .null => text "null"
  | .boolean value => if value then text "true" else text "false"
  | .signed value =>
      if value < 0 then 45 :: decimal value.natAbs else decimal value.natAbs
  | .unsigned value => decimal value
  | .double bits => decimal bits
  | .string value => quoted value
  | .array [] => text "[]"
  | .array (first :: rest) =>
      91 :: lineBreak indent (depth + 1) ++ first.print indent (depth + 1) ++
        printElements indent (depth + 1) rest ++ lineBreak indent depth ++ [93]
  | .object [] => text "\x7b\x7d"
  | .object ((key, value) :: rest) =>
      123 :: lineBreak indent (depth + 1) ++ quoted key ++ colon indent ++
        value.print indent (depth + 1) ++ printMembers indent (depth + 1) rest ++
        lineBreak indent depth ++ [125]

/-- The elements behind the first one. -/
def printElements (indent : Option Nat) (depth : Nat) : List Value → ByteString
  | [] => []
  | value :: rest =>
      44 :: lineBreak indent depth ++ value.print indent depth ++
        printElements indent depth rest

/-- The members behind the first one. -/
def printMembers (indent : Option Nat) (depth : Nat) :
    List (ByteString × Value) → ByteString
  | [] => []
  | (key, value) :: rest =>
      44 :: lineBreak indent depth ++ quoted key ++ colon indent ++
        value.print indent depth ++ printMembers indent depth rest

end

/-- The library with this printer, a parser for the given texts, and a number for
integers that were never assigned. -/
def Library.ofTexts (texts : List (ByteString × Value)) : Library where
  fromString characters := texts.lookup characters
  toString indent value := value.print indent 0
  indeterminate := 0

/-! ## What is printed -/

theorem decimal_digits (value : Nat) : ∀ byte ∈ decimal value, 48 ≤ byte.val ∧ byte.val ≤ 57 := by
  intro byte member
  simp only [decimal, text, Nat.toList_repr, List.mem_map] at member
  obtain ⟨character, isDigit, rfl⟩ := member
  have digit := Nat.isDigit_of_mem_toDigits (by decide) (by decide) isDigit
  simp only [Char.isDigit, Bool.and_eq_true, decide_eq_true_eq, UInt32.le_iff_toNat_le] at digit
  obtain ⟨low, high⟩ := digit
  simp only [Fin.ofNat_eq_cast, Fin.val_natCast]
  change 48 ≤ character.toNat at low
  change character.toNat ≤ 57 at high
  omega

theorem decimal_ne_nil (value : Nat) : decimal value ≠ [] := by
  simp [decimal, text]

theorem zero_not_mem_decimal (value : Nat) : 0 ∉ decimal value := fun member =>
  absurd (decimal_digits value 0 member).1 (by decide)

theorem zero_not_mem_escape (byte : Byte) : 0 ∉ escape byte := by
  revert byte
  decide +kernel

theorem zero_not_mem_quoted (value : ByteString) : 0 ∉ quoted value := by
  simp only [quoted, List.cons_append, List.mem_cons, List.mem_append, List.mem_flatMap,
    List.not_mem_nil, or_false, not_or, not_exists, not_and]
  exact ⟨by decide, fun byte _ => zero_not_mem_escape byte, by decide⟩

theorem zero_not_mem_lineBreak (indent : Option Nat) (depth : Nat) :
    0 ∉ lineBreak indent depth := by
  cases indent <;> simp [lineBreak]

theorem zero_not_mem_colon (indent : Option Nat) : 0 ∉ colon indent := by
  cases indent with
  | none => decide
  | some => rw [colon]; decide

mutual

theorem zero_not_mem_print (indent : Option Nat) (depth : Nat) :
    (value : Value) → 0 ∉ value.print indent depth
  | .null => by rw [Value.print]; decide
  | .boolean value => by
      rw [Value.print]
      cases value <;> decide
  | .signed value => by
      rw [Value.print]
      split
      · simpa using zero_not_mem_decimal _
      · exact zero_not_mem_decimal _
  | .unsigned value => zero_not_mem_decimal value
  | .double bits => zero_not_mem_decimal bits
  | .string value => zero_not_mem_quoted value
  | .array [] => by rw [Value.print]; decide
  | .array (first :: rest) => by
      simp [Value.print, zero_not_mem_lineBreak, zero_not_mem_print indent (depth + 1) first,
        zero_not_mem_printElements indent (depth + 1) rest]
  | .object [] => by rw [Value.print]; decide
  | .object ((key, value) :: rest) => by
      simp [Value.print, zero_not_mem_lineBreak, zero_not_mem_quoted, zero_not_mem_colon,
        zero_not_mem_print indent (depth + 1) value,
        zero_not_mem_printMembers indent (depth + 1) rest]

theorem zero_not_mem_printElements (indent : Option Nat) (depth : Nat) :
    (elements : List Value) → 0 ∉ printElements indent depth elements
  | [] => by simp [printElements]
  | value :: rest => by
      simp [printElements, zero_not_mem_lineBreak, zero_not_mem_print indent depth value,
        zero_not_mem_printElements indent depth rest]

theorem zero_not_mem_printMembers (indent : Option Nat) (depth : Nat) :
    (members : List (ByteString × Value)) → 0 ∉ printMembers indent depth members
  | [] => by simp [printMembers]
  | (key, value) :: rest => by
      simp [printMembers, zero_not_mem_lineBreak, zero_not_mem_quoted, zero_not_mem_colon,
        zero_not_mem_print indent depth value, zero_not_mem_printMembers indent depth rest]

end

theorem head_decimal (value : Nat) : ∃ first rest, decimal value = first :: rest ∧
    first ≠ 64 := by
  obtain ⟨first, rest, digits⟩ := List.exists_cons_of_ne_nil (decimal_ne_nil value)
  refine ⟨first, rest, digits, fun mark => ?_⟩
  have digit := decimal_digits value first (digits ▸ List.mem_cons_self)
  rw [mark] at digit
  exact absurd digit.2 (by decide)

/-- No text of a value starts with an `@`. -/
theorem head_print (indent : Option Nat) (depth : Nat) (value : Value) :
    ∃ first rest, value.print indent depth = first :: rest ∧ first ≠ 64 := by
  match value with
  | .null => exact ⟨110, text "ull", by rw [Value.print]; decide, by decide⟩
  | .boolean true => exact ⟨116, text "rue", by rw [Value.print]; decide, by decide⟩
  | .boolean false => exact ⟨102, text "alse", by rw [Value.print]; decide, by decide⟩
  | .signed value =>
      rw [Value.print]
      split
      · exact ⟨45, _, rfl, by decide⟩
      · exact head_decimal _
  | .unsigned value => exact head_decimal value
  | .double bits => exact head_decimal bits
  | .string value => exact ⟨34, _, rfl, by decide⟩
  | .array [] => exact ⟨91, [93], by rw [Value.print]; decide, by decide⟩
  | .array (first :: rest) => exact ⟨91, _, rfl, by decide⟩
  | .object [] => exact ⟨123, [125], by rw [Value.print]; decide, by decide⟩
  | .object ((key, value) :: rest) => exact ⟨123, _, rfl, by decide⟩

/-- The library with this printer prints as documented. -/
theorem ofTexts_prints (texts : List (ByteString × Value)) :
    (Library.ofTexts texts).Prints where
  nulFree indent value := zero_not_mem_print indent 0 value
  nonempty indent value := by
    obtain ⟨first, rest, printed, _⟩ := head_print indent 0 value
    rw [show (Library.ofTexts texts).toString indent value = first :: rest from printed]
    exact List.cons_ne_nil first rest
  noMark indent value := by
    obtain ⟨first, rest, printed, noMark⟩ := head_print indent 0 value
    rw [show (Library.ofTexts texts).toString indent value = first :: rest from printed]
    exact fun mark => noMark (Option.some.inj mark)

/-! ## Sample bodies -/

/-- A body with the given actions, outside any session. -/
def sampleBody (msgs : List Value) : Value :=
  .object [(text "H", .object [(text "session_id", .string (text "N/A"))]),
    (text "msgs", .array msgs)]

/-- An action that is none of the broker's own. -/
def pingAction (id : String) : Value :=
  .object [(text "ping", .object [(text "id", .string (text id))])]

end Cdcm.Json
