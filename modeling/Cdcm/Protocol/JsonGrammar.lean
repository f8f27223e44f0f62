import Cdcm.Lib.Bytes

/-!
# Pairs of JSON texts that differ in passwords

The grammar of JSON texts, with strings as they are spelled.  A derivation
describes two texts at once: they are equal but for the string values of
members whose key stands for `password`.
-/

namespace Cdcm.Json

/-- White space between the tokens of a text. -/
def IsWhite (bytes : ByteString) : Prop :=
  ∀ byte ∈ bytes, byte = 32 ∨ byte = 9 ∨ byte = 10 ∨ byte = 13

/-- A sequence of digits. -/
def IsDigits (bytes : ByteString) : Prop :=
  bytes ≠ [] ∧ ∀ byte ∈ bytes, 48 ≤ byte ∧ byte ≤ 57

/-- The exponent of a number. -/
def IsExponent (bytes : ByteString) : Prop :=
  ∃ letter sign number, bytes = letter :: sign ++ number ∧
    (letter = 101 ∨ letter = 69) ∧ (sign = [] ∨ sign = [43] ∨ sign = [45]) ∧
    IsDigits number

/-- A number. -/
def IsNumber (bytes : ByteString) : Prop :=
  ∃ sign whole fraction exponent, bytes = sign ++ whole ++ fraction ++ exponent ∧
    (sign = [] ∨ sign = [45]) ∧
    (IsDigits whole ∧ (whole = [48] ∨ whole.head? ≠ some 48)) ∧
    (fraction = [] ∨ ∃ number, fraction = 46 :: number ∧ IsDigits number) ∧
    (exponent = [] ∨ IsExponent exponent)

/-- A value without parts that is no string. -/
def IsScalar (bytes : ByteString) : Prop :=
  bytes = text "null" ∨ bytes = text "true" ∨ bytes = text "false" ∨ IsNumber bytes

/-- What a short escape stands for. -/
def shortEscape (letter : Byte) : Option Nat :=
  if letter = 34 ∨ letter = 92 ∨ letter = 47 then some letter.val
  else if letter = 98 then some 8
  else if letter = 102 then some 12
  else if letter = 110 then some 10
  else if letter = 114 then some 13
  else if letter = 116 then some 9
  else none

/-- The value of a hexadecimal digit. -/
def hexDigit (digit : Byte) : Option Nat :=
  if 48 ≤ digit ∧ digit ≤ 57 then some (digit.val - 48)
  else if 65 ≤ digit ∧ digit ≤ 70 then some (digit.val - 55)
  else if 97 ≤ digit ∧ digit ≤ 102 then some (digit.val - 87)
  else none

/-- The four digits of a code unit. -/
def codeUnit (digits : ByteString) : Option Nat :=
  match digits.map hexDigit with
  | [some first, some second, some third, some fourth] =>
      some (((first * 16 + second) * 16 + third) * 16 + fourth)
  | _ => none

/-- What stands between the quotes of a string, and what it stands for. Bytes
behind ASCII stand for themselves. -/
inductive Spelled : ByteString → List Nat → Prop where
  | nil : Spelled [] []
  | byte {raw : ByteString} {name : List Nat} (byte : Byte) :
      32 ≤ byte → byte ≠ 34 → byte ≠ 92 → Spelled raw name →
        Spelled (byte :: raw) (byte.val :: name)
  | short {raw : ByteString} {name : List Nat} {letter : Byte} {code : Nat} :
      shortEscape letter = some code → Spelled raw name →
        Spelled (92 :: letter :: raw) (code :: name)
  | unicode {raw : ByteString} {name : List Nat} {digits : ByteString} {code : Nat} :
      codeUnit digits = some code → Spelled raw name →
        Spelled (92 :: 117 :: (digits ++ raw)) (code :: name)

/-- Printable bytes that need no escape stand for themselves. -/
theorem Spelled.of_plain {raw : ByteString}
    (plain : ∀ byte ∈ raw, 32 ≤ byte ∧ byte ≠ 34 ∧ byte ≠ 92) :
    Spelled raw (raw.map Fin.val) := by
  induction raw with
  | nil => exact .nil
  | cons byte raw induction =>
      rw [List.forall_mem_cons] at plain
      exact .byte byte plain.1.1 plain.1.2.1 plain.1.2.2 (induction plain.2)

/-- The name of the members that hold passwords. -/
def password : ByteString := text "password"

/-- One of the two texts. -/
inductive Side where
  | first
  | second
  deriving DecidableEq, Repr

/-- A piece of the two texts. The strings outside members with a string value
are the other keys, the elements, and a string that is the whole value. -/
inductive Segment where
  | plain (bytes : ByteString)
  | string (raw : ByteString)
  | member (key before after : ByteString) (value : Side → ByteString)

/-- A string in its quotes. -/
def inQuotes (raw : ByteString) : ByteString := 34 :: (raw ++ [34])

/-- The bytes of a member in front of its value. -/
def memberHead (key before after : ByteString) : ByteString :=
  inQuotes key ++ before ++ 58 :: after ++ [34]

/-- The bytes of a piece. -/
def Segment.bytes (side : Side) : Segment → ByteString
  | .plain bytes => bytes
  | .string raw => inQuotes raw
  | .member key before after value => memberHead key before after ++ (value side ++ [34])

/-- The bytes of a text. -/
def bytes (side : Side) (segments : List Segment) : ByteString :=
  segments.flatMap (Segment.bytes side)

/-- The nonterminals of the grammar. -/
inductive Part where
  | text
  | value
  | unquoted
  | elements
  | member
  | members
  deriving DecidableEq, Repr

/-- The texts of the grammar. -/
inductive Derives : Part → List Segment → Prop where
  | text {before after : ByteString} {value : List Segment} :
      IsWhite before → Derives .value value → IsWhite after →
        Derives .text (.plain before :: (value ++ [.plain after]))
  | string {raw : ByteString} {name : List Nat} :
      Spelled raw name → Derives .value [.string raw]
  | unquoted {value : List Segment} : Derives .unquoted value → Derives .value value
  | scalar {bytes : ByteString} : IsScalar bytes → Derives .unquoted [.plain bytes]
  | emptyArray {white : ByteString} :
      IsWhite white → Derives .unquoted [.plain (91 :: (white ++ [93]))]
  | array {elements : List Segment} :
      Derives .elements elements →
        Derives .unquoted (.plain [91] :: (elements ++ [.plain [93]]))
  | emptyObject {white : ByteString} :
      IsWhite white → Derives .unquoted [.plain (123 :: (white ++ [125]))]
  | object {members : List Segment} :
      Derives .members members →
        Derives .unquoted (.plain [123] :: (members ++ [.plain [125]]))
  | lastElement {before after : ByteString} {value : List Segment} :
      IsWhite before → Derives .value value → IsWhite after →
        Derives .elements (.plain before :: (value ++ [.plain after]))
  | element {before after : ByteString} {value elements : List Segment} :
      IsWhite before → Derives .value value → IsWhite after →
        Derives .elements elements →
          Derives .elements (.plain before :: (value ++ .plain (after ++ [44]) :: elements))
  | stringMember {key before after : ByteString} {value : Side → ByteString}
      {name : List Nat} {content : Side → List Nat} :
      Spelled key name → IsWhite before → IsWhite after →
        (∀ side, Spelled (value side) (content side)) →
        (name = password.map Fin.val ∨ value .first = value .second) →
          Derives .member [.member key before after value]
  | otherMember {key before after : ByteString} {value : List Segment} {name : List Nat} :
      Spelled key name → IsWhite before → IsWhite after → Derives .unquoted value →
        Derives .member (.string key :: .plain (before ++ 58 :: after) :: value)
  | lastMember {before after : ByteString} {member : List Segment} :
      IsWhite before → Derives .member member → IsWhite after →
        Derives .members (.plain before :: (member ++ [.plain after]))
  | members {before after : ByteString} {member members : List Segment} :
      IsWhite before → Derives .member member → IsWhite after →
        Derives .members members →
          Derives .members
            (.plain before :: (member ++ .plain (after ++ [44]) :: members))

section Bytes

variable (side : Side)

@[simp] theorem bytes_nil : bytes side [] = [] := rfl

@[simp] theorem bytes_cons (segment : Segment) (segments : List Segment) :
    bytes side (segment :: segments) = segment.bytes side ++ bytes side segments := rfl

@[simp] theorem bytes_append (segments others : List Segment) :
    bytes side (segments ++ others) = bytes side segments ++ bytes side others :=
  List.flatMap_append

end Bytes

/-- A text between quotes: every quote and every backslash in it is escaped. -/
inductive Quotable : ByteString → Prop where
  | nil : Quotable []
  | byte {raw : ByteString} (byte : Byte) :
      byte ≠ 34 → byte ≠ 92 → Quotable raw → Quotable (byte :: raw)
  | escape {raw : ByteString} (letter : Byte) :
      Quotable raw → Quotable (92 :: letter :: raw)

/-- Bytes without quotes and backslashes are quotable. -/
theorem Quotable.of_plain {raw : ByteString}
    (plain : ∀ byte ∈ raw, byte ≠ 34 ∧ byte ≠ 92) : Quotable raw := by
  induction raw with
  | nil => exact .nil
  | cons byte raw induction =>
      rw [List.forall_mem_cons] at plain
      exact .byte byte plain.1.1 plain.1.2 (induction plain.2)

theorem Quotable.append {raw others : ByteString} (quotable : Quotable raw)
    (rest : Quotable others) : Quotable (raw ++ others) := by
  induction quotable with
  | nil => exact rest
  | byte byte noQuote noBackslash _ induction => exact .byte byte noQuote noBackslash induction
  | escape letter _ induction => exact .escape letter induction

/-- The bytes of some ranges are printable, and neither quotes nor backslashes. -/
theorem plain_of_range {low high byte : Byte} (range : low ≤ byte ∧ byte ≤ high)
    (above : 34 < low) (beside : high < 92 ∨ 92 < low) :
    32 ≤ byte ∧ byte ≠ 34 ∧ byte ≠ 92 := by
  have beyondQuote : 34 < byte := lt_of_lt_of_le above range.1
  refine ⟨le_of_lt (lt_trans (by decide) beyondQuote), ne_of_gt beyondQuote, ?_⟩
  rcases beside with below | beyond
  · exact ne_of_lt (lt_of_le_of_lt range.2 below)
  · exact ne_of_gt (lt_of_lt_of_le beyond range.1)

/-- Hexadecimal digits are printable, and neither quotes nor backslashes. -/
theorem hexDigit_plain {digit : Byte} {value : Nat} (found : hexDigit digit = some value) :
    32 ≤ digit ∧ digit ≠ 34 ∧ digit ≠ 92 := by
  unfold hexDigit at found
  split at found
  next range => exact plain_of_range range (by decide) (by decide)
  split at found
  next range => exact plain_of_range range (by decide) (by decide)
  split at found
  next range => exact plain_of_range range (by decide) (by decide)
  cases found

/-- The digits of a code unit are printable, and neither quotes nor backslashes. -/
theorem codeUnit_plain {digits : ByteString} {code : Nat}
    (found : codeUnit digits = some code) :
    ∀ byte ∈ digits, 32 ≤ byte ∧ byte ≠ 34 ∧ byte ≠ 92 := by
  unfold codeUnit at found
  split at found
  next first second third fourth mapped =>
    intro byte member
    have image : hexDigit byte ∈ digits.map hexDigit := List.mem_map_of_mem member
    rw [mapped] at image
    have present : ∃ value, hexDigit byte = some value := by
      simp only [List.mem_cons, List.not_mem_nil, or_false] at image
      rcases image with equal | equal | equal | equal
      · exact ⟨first, equal⟩
      · exact ⟨second, equal⟩
      · exact ⟨third, equal⟩
      · exact ⟨fourth, equal⟩
    exact hexDigit_plain present.choose_spec
  next => cases found

/-- The letters of the short escapes are printable. -/
theorem shortEscape_printable {letter : Byte} {code : Nat}
    (found : shortEscape letter = some code) : 32 ≤ letter := by
  by_contra control
  have different : ∀ other, 32 ≤ other → letter ≠ other := by
    intro other printable equal
    exact control (equal ▸ printable)
  have nothing : shortEscape letter = none := by
    simp [shortEscape, different]
  simp [nothing] at found

theorem Spelled.quotable {raw : ByteString} {name : List Nat} (spelled : Spelled raw name) :
    Quotable raw := by
  induction spelled with
  | nil => exact .nil
  | byte byte _ noQuote noBackslash _ induction => exact .byte byte noQuote noBackslash induction
  | short _ _ induction => exact .escape _ induction
  | unicode found _ induction =>
      apply Quotable.escape
      apply Quotable.append _ induction
      exact Quotable.of_plain fun byte member => (codeUnit_plain found byte member).2

/-- The bytes of a spelled string are printable. -/
theorem Spelled.printable {raw : ByteString} {name : List Nat} (spelled : Spelled raw name) :
    ∀ byte ∈ raw, 32 ≤ byte := by
  induction spelled with
  | nil => simp
  | byte byte printable _ _ _ induction =>
      rw [List.forall_mem_cons]
      exact ⟨printable, induction⟩
  | short found _ induction =>
      rw [List.forall_mem_cons, List.forall_mem_cons]
      exact ⟨by decide, shortEscape_printable found, induction⟩
  | unicode found _ induction =>
      rw [List.forall_mem_cons, List.forall_mem_cons, List.forall_mem_append]
      exact ⟨by decide, by decide, fun byte member => (codeUnit_plain found byte member).1,
        induction⟩

/-- What stands behind a quote of a quotable text is quotable. -/
theorem Quotable.behind {before after : ByteString}
    (quotable : Quotable (before ++ 34 :: after)) : Quotable after := by
  generalize equal : before ++ 34 :: after = raw at quotable
  induction quotable generalizing before with
  | nil => simp at equal
  | byte byte noQuote _ _ induction =>
      cases before with
      | nil => exact absurd (List.cons.inj equal).1.symm noQuote
      | cons head before => exact induction (List.cons.inj equal).2
  | escape letter rest induction =>
      match before with
      | [] => simp at equal
      | [head] =>
          simp only [List.cons_append, List.nil_append, List.cons.injEq] at equal
          exact equal.2.2 ▸ rest
      | head :: head' :: before =>
          simp only [List.cons_append, List.cons.injEq] at equal
          exact induction equal.2.2

/-- The first bare quote behind a quotable text is where it ends. -/
theorem Quotable.unique {raw raw' rest rest' : ByteString} (quotable : Quotable raw)
    (quotable' : Quotable raw') (equal : raw ++ 34 :: rest = raw' ++ 34 :: rest') :
    raw = raw' ∧ rest = rest' := by
  induction quotable generalizing raw' with
  | nil =>
      cases quotable' with
      | nil => simpa using equal
      | byte byte noQuote =>
          simp only [List.nil_append, List.cons_append, List.cons.injEq] at equal
          exact absurd equal.1.symm noQuote
      | escape letter => simp at equal
  | byte byte noQuote noBackslash _ induction =>
      cases quotable' with
      | nil =>
          simp only [List.nil_append, List.cons_append, List.cons.injEq] at equal
          exact absurd equal.1 noQuote
      | byte byte' _ _ rest =>
          simp only [List.cons_append, List.cons.injEq] at equal
          simpa [equal.1] using induction rest equal.2
      | escape letter =>
          simp only [List.cons_append, List.cons.injEq] at equal
          exact absurd equal.1 noBackslash
  | escape letter _ induction =>
      cases quotable' with
      | nil => simp at equal
      | byte byte' _ noBackslash =>
          simp only [List.cons_append, List.cons.injEq] at equal
          exact absurd equal.1.symm noBackslash
      | escape letter' rest =>
          simp only [List.cons_append, List.cons.injEq, true_and] at equal
          simpa [equal.1] using induction rest equal.2

end Cdcm.Json
