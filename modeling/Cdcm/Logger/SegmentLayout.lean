import Cdcm.Logger.PasswordPattern

/-!
# What stands behind the strings of a JSON text

The pattern sees a key only by the colon and the quote behind it.  The grammar
says what may follow each string, and this is what the redaction depends on.
-/

namespace Cdcm.Logger

open Regex Json

/-- The first byte of the texts that is no white space. -/
def mark : List Segment → Option Byte
  | [] => none
  | .plain bytes :: rest =>
      match bytes.dropWhile isSpace with
      | [] => mark rest
      | byte :: _ => some byte
  | .string _ :: _ => some 34
  | .member _ _ _ _ :: _ => some 34

/-- Behind the next string something else comes next. -/
def PassesString (byte : Byte) : List Segment → Prop
  | [] => True
  | .plain _ :: rest => PassesString byte rest
  | .string _ :: rest => mark rest ≠ some byte
  | .member _ _ _ _ :: _ => byte ≠ 58

/-- A string that is no key. -/
def EndsValue (rest : List Segment) : Prop :=
  mark rest = none ∨ mark rest = some 44 ∨ mark rest = some 93

/-- A colon and a value that is no string. -/
def ColonBehind (rest : List Segment) : Prop :=
  ∃ before after tail, rest = .plain (before ++ 58 :: after) :: tail ∧
    (∀ byte ∈ before, isSpace byte) ∧ (∀ byte ∈ after, isSpace byte) ∧ mark tail ≠ some 34

/-- The end of an object, or a comma and another key. -/
def EndsMember (rest : List Segment) : Prop :=
  ∃ byte, mark rest = some byte ∧ (byte = 44 ∨ byte = 125) ∧ PassesString byte rest

/-- What the redaction needs to know of one piece and of what follows. -/
def SegmentLaid (rest : List Segment) : Segment → Prop
  | .plain bytes => ∀ byte ∈ bytes, byte ≠ 34 ∧ byte ≠ 92 ∧ byte ≠ 0
  | .string raw =>
      Quotable raw ∧ (∀ byte ∈ raw, 32 ≤ byte) ∧ (EndsValue rest ∨ ColonBehind rest)
  | .member key before after value =>
      Quotable key ∧ (∀ byte ∈ key, 32 ≤ byte) ∧
        (∀ byte ∈ before, isSpace byte) ∧ (∀ byte ∈ after, isSpace byte) ∧
        (∀ side, Quotable (value side) ∧ ∀ byte ∈ value side, 32 ≤ byte) ∧ EndsMember rest

/-- The same for all pieces. -/
def Laid : List Segment → Prop
  | [] => True
  | segment :: rest => SegmentLaid rest segment ∧ Laid rest

section Marks

variable {side : Side} {segments rest : List Segment} {white : ByteString} {byte : Byte}

theorem mark_plain_of_space (spaces : ∀ byte ∈ white, isSpace byte) (rest : List Segment) :
    mark (.plain white :: rest) = mark rest := by
  have none : white.dropWhile isSpace = [] := List.dropWhile_eq_nil_iff.mpr spaces
  simp [mark, none]

theorem mark_plain_append (spaces : ∀ byte ∈ white, isSpace byte)
    (solid : isSpace byte = false) (bytes : ByteString) (rest : List Segment) :
    mark (.plain (white ++ byte :: bytes) :: rest) = some byte := by
  have behind : (white ++ byte :: bytes).dropWhile isSpace = byte :: bytes := by
    rw [List.dropWhile_append_of_pos spaces, List.dropWhile_cons_of_neg (by simp [solid])]
  simp [mark, behind]

/-- The mark is the first byte that is no white space. -/
theorem head_dropWhile_bytes (side : Side) (segments : List Segment) :
    ((bytes side segments).dropWhile isSpace).head? = mark segments := by
  induction segments with
  | nil => rfl
  | cons segment rest induction =>
      cases segment with
      | plain plain =>
          rw [bytes_cons, Segment.bytes, List.dropWhile_append, mark]
          cases found : plain.dropWhile isSpace with
          | nil => simpa using induction
          | cons byte left => simp
      | string raw => simp [Segment.bytes, inQuotes, mark, isSpace]
      | member key before after value =>
          simp [Segment.bytes, memberHead, inQuotes, mark, isSpace]

/-- A letter at the front of the bytes is their mark. -/
theorem mark_of_head (solid : isSpace byte = false)
    (starts : (bytes side segments).head? = some byte) : mark segments = some byte := by
  rw [← head_dropWhile_bytes side]
  obtain ⟨left, equal⟩ := List.head?_eq_some_iff.mp starts
  rw [equal, List.dropWhile_cons_of_neg (by simp [solid])]
  rfl

/-- A value behind a string shows as a colon. -/
theorem mark_of_valueBehind (value : ValueBehind (bytes side segments)) :
    mark segments = some 58 := by
  obtain ⟨before, after, left, equal, spaces, -⟩ := value
  rw [← head_dropWhile_bytes side, equal, List.dropWhile_append_of_pos spaces]
  rw [List.dropWhile_cons_of_neg (by decide)]
  rfl

theorem not_valueBehind_of_endsValue (ends : EndsValue segments) :
    ¬ ValueBehind (bytes side segments) := by
  intro value
  have colon := mark_of_valueBehind value
  rcases ends with equal | equal | equal <;> simp [equal] at colon

theorem not_valueBehind_of_endsMember (ends : EndsMember segments) :
    ¬ ValueBehind (bytes side segments) := by
  intro value
  obtain ⟨byte, marked, equal, -⟩ := ends
  rw [mark_of_valueBehind value, Option.some.injEq] at marked
  rcases equal with equal | equal <;> simp [equal] at marked

/-- Behind the colon of another value there is no quote. -/
theorem not_valueBehind_of_colonBehind (colon : ColonBehind segments) :
    ¬ ValueBehind (bytes side segments) := by
  rintro ⟨before', after', left, equal, spaces', afterSpaces'⟩
  obtain ⟨before, after, tail, rfl, spaces, afterSpaces, other⟩ := colon
  have behind := congrArg (List.dropWhile isSpace) equal
  rw [bytes_cons, Segment.bytes, List.append_assoc, List.dropWhile_append_of_pos spaces,
    List.dropWhile_append_of_pos spaces', List.cons_append,
    List.dropWhile_cons_of_neg (by decide), List.dropWhile_cons_of_neg (by decide),
    List.cons.injEq] at behind
  have next := congrArg (List.dropWhile isSpace) behind.2
  rw [List.dropWhile_append_of_pos afterSpaces, List.dropWhile_append_of_pos afterSpaces',
    List.dropWhile_cons_of_neg (by decide)] at next
  apply other
  rw [← head_dropWhile_bytes side, next]
  rfl

/-- No letter stands behind a string. -/
theorem no_letter_behind
    (ends : EndsValue segments ∨ ColonBehind segments ∨ EndsMember segments) :
    (bytes side segments).head? ≠ some 112 := by
  intro starts
  have letter := mark_of_head (by decide) starts
  rcases ends with (equal | equal | equal) | colon | member
  · simp [equal] at letter
  · simp [equal] at letter
  · simp [equal] at letter
  · obtain ⟨before, after, tail, rfl, spaces, -, -⟩ := colon
    rw [mark_plain_append spaces (by decide)] at letter
    simp at letter
  · obtain ⟨byte, marked, equal, -⟩ := member
    rw [letter, Option.some.injEq] at marked
    rcases equal with equal | equal <;> simp [equal] at marked

end Marks

section Grammar

variable {rest value members : List Segment} {white bytes : ByteString}

theorem isSpace_of_isWhite (isWhite : IsWhite white) : ∀ byte ∈ white, isSpace byte := by
  intro byte member
  rcases isWhite byte member with rfl | rfl | rfl | rfl <;> decide

/-- Bytes outside of strings. -/
def IsOutside (bytes : ByteString) : Prop := ∀ byte ∈ bytes, byte ≠ 34 ∧ byte ≠ 92 ∧ byte ≠ 0

instance (bytes : ByteString) : Decidable (IsOutside bytes) :=
  inferInstanceAs (Decidable (∀ byte ∈ bytes, _))

theorem isOutside_nil : IsOutside [] := List.forall_mem_nil _

theorem isOutside_append {others : ByteString} :
    IsOutside (bytes ++ others) ↔ IsOutside bytes ∧ IsOutside others :=
  List.forall_mem_append

theorem isOutside_cons {byte : Byte} :
    IsOutside (byte :: bytes) ↔ (byte ≠ 34 ∧ byte ≠ 92 ∧ byte ≠ 0) ∧ IsOutside bytes :=
  List.forall_mem_cons

theorem isOutside_of_isWhite (isWhite : IsWhite white) : IsOutside white := by
  intro byte member
  rcases isWhite byte member with rfl | rfl | rfl | rfl <;> decide

theorem isOutside_of_isDigits (digits : IsDigits bytes) : IsOutside bytes := by
  intro byte member
  have range := digits.2 byte member
  have plain := plain_of_range range (by decide) (by decide)
  exact ⟨plain.2.1, plain.2.2, ne_of_gt (lt_of_lt_of_le (by decide) range.1)⟩

theorem isOutside_of_isExponent (exponent : IsExponent bytes) : IsOutside bytes := by
  obtain ⟨letter, sign, number, rfl, letters, signs, digits⟩ := exponent
  apply isOutside_append.mpr
  constructor
  · rcases letters with rfl | rfl <;> rcases signs with rfl | rfl | rfl <;> decide +kernel
  · exact isOutside_of_isDigits digits

theorem isOutside_of_isNumber (number : IsNumber bytes) : IsOutside bytes := by
  obtain ⟨sign, whole, fraction, exponent, rfl, signs, ⟨digits, -⟩, fractions, exponents⟩ :=
    number
  simp only [isOutside_append]
  refine ⟨⟨⟨?_, isOutside_of_isDigits digits⟩, ?_⟩, ?_⟩
  · rcases signs with rfl | rfl <;> decide +kernel
  · rcases fractions with rfl | ⟨number, rfl, digits'⟩
    · decide +kernel
    · exact isOutside_cons.mpr ⟨by decide, isOutside_of_isDigits digits'⟩
  · rcases exponents with rfl | exponents
    · decide +kernel
    · exact isOutside_of_isExponent exponents

/-- A number starts with a sign or a digit. -/
theorem head_of_isNumber (number : IsNumber bytes) :
    ∃ byte left, bytes = byte :: left ∧ isSpace byte = false := by
  obtain ⟨sign, whole, fraction, exponent, rfl, signs, ⟨digits, -⟩, -, -⟩ := number
  rcases signs with rfl | rfl
  · cases whole with
    | nil => exact absurd rfl digits.1
    | cons byte left =>
        refine ⟨byte, left ++ fraction ++ exponent, by simp, ?_⟩
        have range := digits.2 byte (by simp)
        have above : ¬ byte ≤ 32 := not_le_of_gt (lt_of_lt_of_le (by decide) range.1)
        simp only [isSpace, decide_eq_false_iff_not, not_or, not_and]
        exact ⟨fun equal => above equal.le, fun _ small => above (small.trans (by decide))⟩
  · exact ⟨45, whole ++ fraction ++ exponent, by simp, by decide⟩

/-- A scalar has no quotes, and it starts with a byte that shows. -/
theorem scalar_bytes (scalar : IsScalar bytes) :
    IsOutside bytes ∧ ∃ byte left, bytes = byte :: left ∧ isSpace byte = false := by
  rcases scalar with rfl | rfl | rfl | number
  · exact ⟨by decide +kernel, 110, text "ull", by decide +kernel, by decide⟩
  · exact ⟨by decide +kernel, 116, text "rue", by decide +kernel, by decide⟩
  · exact ⟨by decide +kernel, 102, text "alse", by decide +kernel, by decide⟩
  · exact ⟨isOutside_of_isNumber number, head_of_isNumber number⟩

/-- A value that is no string does not start with a quote. -/
theorem mark_of_unquoted (derives : Derives .unquoted value) (rest : List Segment) :
    mark (value ++ rest) ≠ some 34 := by
  cases derives with
  | scalar scalar =>
      obtain ⟨outside, byte, left, rfl, solid⟩ := scalar_bytes scalar
      have marked : mark (.plain ([] ++ byte :: left) :: rest) = some byte :=
        mark_plain_append (by simp) solid left rest
      rw [List.nil_append] at marked
      rw [List.singleton_append, marked]
      simpa using (outside byte (by simp)).1
  | emptyArray white => simp [mark, isSpace]
  | array elements => simp [mark, isSpace]
  | emptyObject white => simp [mark, isSpace]
  | object members => simp [mark, isSpace]

/-- The first string of an object is a key. -/
theorem passesString_of_member (derives : Derives .member value) (rest : List Segment) :
    PassesString 44 (value ++ rest) := by
  cases derives with
  | stringMember _ _ _ _ _ =>
      change (44 : Byte) ≠ 58
      decide
  | otherMember _ before _ _ =>
      change mark (.plain _ :: _) ≠ some 44
      rw [mark_plain_append (isSpace_of_isWhite before) (by decide)]
      decide

theorem passesString_of_members (derives : Derives .members members) (rest : List Segment) :
    PassesString 44 (members ++ rest) := by
  cases derives with
  | lastMember _ member _ =>
      rw [List.cons_append, List.append_assoc]
      exact passesString_of_member member _
  | members _ member _ _ =>
      rw [List.cons_append, List.append_assoc]
      exact passesString_of_member member _

/-- No string outside of members stands in front of the end of an object. -/
theorem passesString_of_laid (laid : Laid rest) : PassesString 125 rest := by
  induction rest with
  | nil => trivial
  | cons segment rest induction =>
      cases segment with
      | plain bytes => exact induction laid.2
      | string raw =>
          intro marked
          rcases laid.1.2.2 with (equal | equal | equal) | ⟨before, after, tail, rfl, spaces, -⟩
          · simp [equal] at marked
          · simp [equal] at marked
          · simp [equal] at marked
          · rw [mark_plain_append spaces (by decide)] at marked
            simp at marked
      | member key before after value =>
          change (125 : Byte) ≠ 58
          decide

/-- What may follow a part of a text. -/
def Context : Part → List Segment → Prop
  | .text, rest => rest = []
  | .value, rest => EndsValue rest
  | .unquoted, _ => True
  | .elements, rest => mark rest = some 93
  | .member, rest => EndsMember rest
  | .members, rest => mark rest = some 125 ∧ PassesString 125 rest

/-- The pieces of a text of the grammar are laid out. -/
theorem laid_of_derives {part : Part} {segments : List Segment}
    (derives : Derives part segments) (laid : Laid rest) (context : Context part rest) :
    Laid (segments ++ rest) := by
  have plain : ∀ {bytes rest}, IsOutside bytes → Laid rest → Laid (.plain bytes :: rest) :=
    fun outside laid => ⟨outside, laid⟩
  induction derives generalizing rest with
  | text before _ after induction =>
      subst context
      rw [List.cons_append, List.append_assoc]
      apply plain (isOutside_of_isWhite before)
      apply induction (plain (isOutside_of_isWhite after) laid)
      exact .inl (mark_plain_of_space (isSpace_of_isWhite after) [])
  | string spelled => exact ⟨⟨spelled.quotable, spelled.printable, .inl context⟩, laid⟩
  | unquoted _ induction => exact induction laid trivial
  | scalar scalar => exact plain (scalar_bytes scalar).1 laid
  | emptyArray white =>
      apply plain _ laid
      rw [isOutside_cons, isOutside_append]
      exact ⟨by decide, isOutside_of_isWhite white, by decide +kernel⟩
  | array _ induction =>
      rw [List.cons_append, List.append_assoc]
      apply plain (by decide +kernel)
      exact induction (plain (by decide +kernel) laid) rfl
  | emptyObject white =>
      apply plain _ laid
      rw [isOutside_cons, isOutside_append]
      exact ⟨by decide, isOutside_of_isWhite white, by decide +kernel⟩
  | object _ induction =>
      rw [List.cons_append, List.append_assoc]
      apply plain (by decide +kernel)
      have closed : Laid (.plain [125] :: rest) := plain (by decide +kernel) laid
      exact induction closed ⟨rfl, passesString_of_laid closed⟩
  | lastElement before _ after induction =>
      rw [List.cons_append, List.append_assoc]
      apply plain (isOutside_of_isWhite before)
      apply induction (plain (isOutside_of_isWhite after) laid)
      right
      right
      exact (mark_plain_of_space (isSpace_of_isWhite after) rest).trans context
  | element before _ after _ induction elements =>
      rw [List.cons_append, List.append_assoc]
      apply plain (isOutside_of_isWhite before)
      apply induction
      · apply plain _ (elements laid context)
        exact isOutside_append.mpr ⟨isOutside_of_isWhite after, by decide +kernel⟩
      · right
        left
        exact mark_plain_append (isSpace_of_isWhite after) (by decide) [] _
  | stringMember key before after value _ =>
      refine ⟨⟨key.quotable, key.printable, isSpace_of_isWhite before,
        isSpace_of_isWhite after, ?_, context⟩, laid⟩
      intro side
      exact ⟨(value side).quotable, (value side).printable⟩
  | otherMember key before after value induction =>
      have colon := isSpace_of_isWhite before
      refine ⟨⟨key.quotable, key.printable, .inr ?_⟩, ?_, induction laid trivial⟩
      · exact ⟨_, _, _, rfl, colon, isSpace_of_isWhite after, mark_of_unquoted value rest⟩
      · change IsOutside _
        rw [isOutside_append, isOutside_cons]
        exact ⟨isOutside_of_isWhite before, by decide, isOutside_of_isWhite after⟩
  | lastMember before _ after induction =>
      rw [List.cons_append, List.append_assoc]
      apply plain (isOutside_of_isWhite before)
      apply induction (plain (isOutside_of_isWhite after) laid)
      refine ⟨125, ?_, .inr rfl, context.2⟩
      exact (mark_plain_of_space (isSpace_of_isWhite after) rest).trans context.1
  | members before _ after others induction others_induction =>
      rw [List.cons_append, List.append_assoc]
      apply plain (isOutside_of_isWhite before)
      apply induction
      · apply plain _ (others_induction laid context)
        exact isOutside_append.mpr ⟨isOutside_of_isWhite after, by decide +kernel⟩
      · refine ⟨44, ?_, .inl rfl, passesString_of_members others rest⟩
        exact mark_plain_append (isSpace_of_isWhite after) (by decide) [] _

end Grammar

end Cdcm.Logger
