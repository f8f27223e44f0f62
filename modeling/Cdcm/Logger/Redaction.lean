import Cdcm.Logger.SegmentLayout

/-!
# What the log shows of passwords

Two client bodies that are equal but for passwords, and the messages that are
logged for them.  A value is shown behind its first quote, also when that quote is
an escaped one; a value of a key that is spelled with escapes, and a value whose
first quote lies behind the cut, are shown whole.
-/

namespace Cdcm.Logger

open Regex Json

/-- What is shown of a piece in the room that is left for it. -/
def shownOf (side : Side) (room : Nat) : Segment → ByteString
  | .plain bytes => bytes.take room
  | .string raw => (inQuotes raw).take room
  | .member key before after value =>
      let hidden := (covered key before after (value side)).length
      if EndsPlain key ∧ hidden ≤ room then
        inQuotes key ++ [58, 34, 34] ++ (exposed (value side)).take (room - hidden)
      else
        ((Segment.member key before after value).bytes side).take room

/-- What is shown of a piece that is not cut. -/
def wholeOf (side : Side) : Segment → ByteString
  | .member key before after value =>
      if EndsPlain key then inQuotes key ++ [58, 34, 34] ++ exposed (value side)
      else (Segment.member key before after value).bytes side
  | segment => segment.bytes side

/-- What is shown of a text that is not cut. -/
def whole (side : Side) (segments : List Segment) : ByteString :=
  segments.flatMap (wholeOf side)

/-- What is shown of a text. -/
def shown (side : Side) : Nat → List Segment → ByteString
  | _, [] => []
  | room, segment :: rest =>
      shownOf side room segment ++ shown side (room - (segment.bytes side).length) rest

/-- Two values of a member of which the same is shown. -/
def SameShown : Segment → Prop
  | .plain _ => True
  | .string _ => True
  | .member key _ _ value =>
      if EndsPlain key then exposed (value .first) = exposed (value .second)
      else value .first = value .second

/-- A cut in a piece that shows the same on both sides: behind the first quote of a
value, or where all in front of the cut is the same. -/
def SameCut (room room' : Nat) : Segment → Prop
  | .member key before after value =>
      let hidden := (covered key before after (value .first)).length
      let hidden' := (covered key before after (value .second)).length
      (EndsPlain key ∧ hidden ≤ room ∧ hidden' ≤ room' ∧
        (exposed (value .first)).take (room - hidden) =
          (exposed (value .second)).take (room' - hidden')) ∨
      ((EndsPlain key → room < hidden ∧ room' < hidden') ∧
        ((Segment.member key before after value).bytes .first).take room =
          ((Segment.member key before after value).bytes .second).take room')
  | segment => (segment.bytes .first).take room = (segment.bytes .second).take room'

/-- The passwords stay hidden in messages with so much room for either text: each
piece is whole in both and shows the same of its values, or the cut falls into the
same piece of both and shows the same there. -/
def Hidden : Nat → Nat → List Segment → Prop
  | _, _, [] => True
  | room, room', segment :: rest =>
      ((segment.bytes .first).length ≤ room ∧ (segment.bytes .second).length ≤ room' ∧
        SameShown segment ∧
        Hidden (room - (segment.bytes .first).length)
          (room' - (segment.bytes .second).length) rest) ∨
      (room < (segment.bytes .first).length ∧ room' < (segment.bytes .second).length ∧
        SameCut room room' segment)

/-- The room that the message buffer leaves for the body. -/
def bodyRoom : Nat := messageSize - 1 - (text "body : ").length

section Shown

variable {side : Side} {segments rest : List Segment} {segment : Segment}

theorem shownOf_zero (side : Side) (segment : Segment) : shownOf side 0 segment = [] := by
  cases segment with
  | plain bytes => rfl
  | string raw => rfl
  | member key before after value =>
      have some : ¬ (covered key before after (value side)).length ≤ 0 := by
        simp [covered]
      simp [shownOf, some]

theorem shown_zero (side : Side) (segments : List Segment) : shown side 0 segments = [] := by
  induction segments with
  | nil => rfl
  | cons segment rest induction => simp [shown, shownOf_zero, induction]

theorem inLine_of_printable {bytes : ByteString} (printable : ∀ byte ∈ bytes, 32 ≤ byte) :
    ∀ byte ∈ bytes, inLine byte := by
  intro byte member
  have above := printable byte member
  have line : byte ≠ 10 ∧ byte ≠ 13 := by
    constructor <;>
    · intro equal
      subst equal
      exact absurd above (by decide)
  simpa [inLine] using line

/-- A dull piece is shown as far as there is room. -/
theorem redact_dull {front : ByteString} (dull : Dull passwordPattern front (bytes side rest))
    (room : Nat) :
    redact ((front ++ bytes side rest).take room) =
      front.take room ++ redact ((bytes side rest).take (room - front.length)) :=
  replaceAll_take dull room

/-- The message that remains of the front of a text. -/
theorem redact_eq_shown (laid : Laid segments) (room : Nat) :
    redact ((bytes side segments).take room) = shown side room segments := by
  induction segments generalizing room with
  | nil => simp [shown]
  | cons segment rest induction =>
      rw [bytes_cons, shown]
      rw [← induction laid.2]
      cases segment with
      | plain plain =>
          have free : (34 : Byte) ∉ plain := fun member => (laid.1 34 member).1 rfl
          exact redact_dull (dull_of_plain free) room
      | string raw =>
          obtain ⟨quotable, -, behind⟩ := laid.1
          have noLetter : (bytes side rest).head? ≠ some 112 :=
            no_letter_behind (behind.imp_right .inl)
          have noValue : ¬ ValueBehind (bytes side rest) := by
            rcases behind with ends | colon
            · exact not_valueBehind_of_endsValue ends
            · exact not_valueBehind_of_colonBehind colon
          exact redact_dull (dull_of_string quotable noLetter fun _ => noValue) room
      | member key before after value =>
          obtain ⟨quotable, -, spaces, spaces', values, ends⟩ := laid.1
          have noLetter : (bytes side rest).head? ≠ some 112 := no_letter_behind (.inr (.inr ends))
          have noValue : ¬ ValueBehind (bytes side rest) := not_valueBehind_of_endsMember ends
          by_cases plain : EndsPlain key
          · have regroup : (Segment.member key before after value).bytes side ++ bytes side rest =
                covered key before after (value side) ++
                  (exposed (value side) ++ bytes side rest) := by
              rw [Segment.bytes, covered_exposed, List.append_assoc]
            have total : ((Segment.member key before after value).bytes side).length =
                (covered key before after (value side)).length + (exposed (value side)).length := by
              rw [Segment.bytes, covered_exposed, List.length_append]
            by_cases fits : (covered key before after (value side)).length ≤ room
            · have dull := dull_exposed (values side).1 noLetter noValue
              rw [regroup, List.take_append, List.take_of_length_le fits]
              rw [redact_covered quotable plain spaces spaces'
                (inLine_of_printable (values side).2)]
              rw [redact_dull dull, total, Nat.sub_add_eq]
              simp [shownOf, plain, fits]
            · have cut : room < (covered key before after (value side)).length :=
                Nat.lt_of_not_le fits
              have none :
                  room - ((Segment.member key before after value).bytes side).length = 0 := by
                omega
              have nothing : room - (covered key before after (value side)).length = 0 := by
                omega
              rw [none, regroup, List.take_append, nothing, List.take_zero, List.append_nil]
              rw [redact_uncovered quotable plain spaces spaces' cut]
              simp only [shownOf, plain, fits, and_false, if_false]
              rw [Segment.bytes, covered_exposed, List.take_append_of_le_length cut.le]
              simp
          · have dull := dull_of_member quotable (values side).1 spaces spaces' plain noLetter
              noValue
            simp only [shownOf, plain, false_and, if_false]
            exact redact_dull dull room

theorem shownOf_of_fits {room : Nat} (fits : (segment.bytes side).length ≤ room) :
    shownOf side room segment = wholeOf side segment := by
  cases segment with
  | plain bytes => exact List.take_of_length_le fits
  | string raw => exact List.take_of_length_le fits
  | member key before after value =>
      rw [shownOf, wholeOf, List.take_of_length_le fits]
      rw [Segment.bytes, covered_exposed, List.length_append] at fits
      have covers : (covered key before after (value side)).length ≤ room := by omega
      by_cases plain : EndsPlain key
      · rw [if_pos ⟨plain, covers⟩, if_pos plain, List.take_of_length_le (by omega)]
      · rw [if_neg fun both => plain both.1, if_neg plain]

/-- A text that is not cut is shown whole. -/
theorem shown_of_fits {room : Nat} (fits : (bytes side segments).length ≤ room) :
    shown side room segments = whole side segments := by
  induction segments generalizing room with
  | nil => rfl
  | cons segment rest induction =>
      rw [bytes_cons, List.length_append] at fits
      rw [shown, whole, List.flatMap_cons, ← whole]
      rw [shownOf_of_fits (by omega), induction (by omega)]

theorem wholeOf_of_same (same : SameShown segment) :
    wholeOf .first segment = wholeOf .second segment := by
  cases segment with
  | plain bytes => rfl
  | string raw => rfl
  | member key before after value =>
      by_cases plain : EndsPlain key
      · have equal : exposed (value .first) = exposed (value .second) := by
          simpa [SameShown, plain] using same
        simp [wholeOf, plain, equal]
      · have equal : value .first = value .second := by
          simpa [SameShown, plain] using same
        simp [wholeOf, plain, Segment.bytes, equal]

/-- Hidden passwords leave the same message. -/
theorem shown_of_hidden {room room' : Nat} (hidden : Hidden room room' segments) :
    shown .first room segments = shown .second room' segments := by
  induction segments generalizing room room' with
  | nil => rfl
  | cons segment rest induction =>
      rw [shown, shown]
      rcases hidden with ⟨fits, fits', same, behind⟩ | ⟨cut, cut', same⟩
      · rw [shownOf_of_fits fits, shownOf_of_fits fits', wholeOf_of_same same, induction behind]
      · rw [Nat.sub_eq_zero_of_le cut.le, Nat.sub_eq_zero_of_le cut'.le]
        rw [shown_zero, shown_zero, List.append_nil, List.append_nil]
        cases segment with
        | plain bytes => exact same
        | string raw => exact same
        | member key before after value =>
            rcases same with ⟨plain, covers, covers', equal⟩ | ⟨open', equal⟩
            · simp only [shownOf, plain, covers, covers', and_self, if_true, equal]
            · have closed : ¬ (EndsPlain key ∧
                  (covered key before after (value .first)).length ≤ room) :=
                fun covers => Nat.not_le_of_lt (open' covers.1).1 covers.2
              have closed' : ¬ (EndsPlain key ∧
                  (covered key before after (value .second)).length ≤ room') :=
                fun covers => Nat.not_le_of_lt (open' covers.1).2 covers.2
              rw [shownOf, shownOf]
              simp only [if_neg closed, if_neg closed', equal]

end Shown

section Exposure

variable {side : Side} {segments rest : List Segment} {byte : Byte}

@[simp] theorem whole_cons (side : Side) (segment : Segment) (rest : List Segment) :
    whole side (segment :: rest) = wholeOf side segment ++ whole side rest := rfl

/-- A piece that starts with a quote is shown with that quote. -/
theorem wholeOf_member (side : Side) (key before after : ByteString)
    (value : Side → ByteString) (spaces : ∀ byte ∈ before, isSpace byte) :
    ∃ tail, wholeOf side (.member key before after value) = inQuotes key ++ tail ∧
      ∀ more, ((tail ++ more).dropWhile isSpace).head? = some 58 := by
  by_cases plain : EndsPlain key
  · refine ⟨[58, 34, 34] ++ exposed (value side), by simp [wholeOf, plain], fun more => ?_⟩
    simp [isSpace]
  · refine ⟨before ++ 58 :: (after ++ 34 :: (value side ++ [34])), ?_, fun more => ?_⟩
    · simp [wholeOf, plain, Segment.bytes, memberHead]
    · rw [List.append_assoc, List.dropWhile_append_of_pos spaces, List.cons_append]
      rw [List.dropWhile_cons_of_neg (by decide)]
      rfl

/-- The mark also comes first in what is shown. -/
theorem head_dropWhile_whole (laid : Laid segments) :
    ((whole side segments).dropWhile isSpace).head? = mark segments := by
  induction segments with
  | nil => rfl
  | cons segment rest induction =>
      cases segment with
      | plain plain =>
          rw [whole_cons, wholeOf, Segment.bytes, List.dropWhile_append, mark]
          cases found : plain.dropWhile isSpace with
          | nil => simpa using induction laid.2
          | cons byte left => simp
          all_goals simp
      | string raw => simp [wholeOf, Segment.bytes, inQuotes, mark, isSpace]
      | member key before after value =>
          obtain ⟨tail, equal, -⟩ :=
            wholeOf_member side key before after value laid.1.2.2.1
          simp [equal, inQuotes, mark, isSpace]

/-- What is shown up to the first string, and behind it. -/
theorem whole_split (laid : Laid segments) (passes : PassesString byte segments) :
    ∃ front, IsOutside front ∧ ((∀ side, whole side segments = front) ∨
      ∃ raw, Quotable raw ∧ ∀ side, ∃ tail,
        whole side segments = front ++ 34 :: (raw ++ 34 :: tail) ∧
          (tail.dropWhile isSpace).head? ≠ some byte) := by
  induction segments with
  | nil => exact ⟨[], isOutside_nil, .inl fun side => rfl⟩
  | cons segment rest induction =>
      cases segment with
      | plain plain =>
          obtain ⟨front, outside, split⟩ := induction laid.2 passes
          refine ⟨plain ++ front, isOutside_append.mpr ⟨laid.1, outside⟩, ?_⟩
          rcases split with none | ⟨raw, quotable, split⟩
          · left
            intro side
            simp [wholeOf, Segment.bytes, none side]
          · right
            refine ⟨raw, quotable, fun side => ?_⟩
            obtain ⟨tail, equal, differs⟩ := split side
            exact ⟨tail, by simp [wholeOf, Segment.bytes, equal], differs⟩
      | string raw =>
          refine ⟨[], isOutside_nil, .inr ⟨raw, laid.1.1, fun side => ?_⟩⟩
          refine ⟨whole side rest, by simp [wholeOf, Segment.bytes, inQuotes], ?_⟩
          rw [head_dropWhile_whole laid.2]
          exact passes
      | member key before after value =>
          refine ⟨[], isOutside_nil, .inr ⟨key, laid.1.1, fun side => ?_⟩⟩
          obtain ⟨tail, equal, starts⟩ :=
            wholeOf_member side key before after value laid.1.2.2.1
          refine ⟨tail ++ whole side rest, by simp [equal, inQuotes], ?_⟩
          rw [starts, ne_eq, Option.some.injEq]
          exact fun same => passes same.symm

/-- The byte behind white space does not depend on what follows a quote. -/
theorem head_dropWhile_front (front : ByteString) (left right : ByteString) :
    ((front ++ 34 :: left).dropWhile isSpace).head? =
      ((front ++ 34 :: right).dropWhile isSpace).head? := by
  induction front with
  | nil => simp [isSpace]
  | cons byte front induction =>
      by_cases space : isSpace byte
      · simpa [space] using induction
      · simp [space]

/-- Behind a member, the end of a string does not pass for what follows. -/
theorem no_false_end {raw : ByteString} {side side' : Side} (laid : Laid segments)
    (ends : EndsMember segments) (quotable : Quotable raw) :
    raw ++ 34 :: whole side segments ≠ whole side' segments := by
  intro equal
  obtain ⟨byte, marked, -, passes⟩ := ends
  obtain ⟨front, outside, none | ⟨found, quotable', split⟩⟩ := whole_split laid passes
  · rw [none side'] at equal
    have member : (34 : Byte) ∈ front := by simp [← equal]
    exact (outside 34 member).1 rfl
  · have plain : Quotable front :=
      Quotable.of_plain fun byte member => ⟨(outside byte member).1, (outside byte member).2.1⟩
    obtain ⟨tail, equal', differs⟩ := split side'
    obtain ⟨tail', equal'', -⟩ := split side
    rw [equal'] at equal
    have first := quotable.unique plain equal
    rw [equal''] at first
    obtain ⟨rfl, rfl⟩ := plain.unique quotable' first.2
    apply differs
    rw [head_dropWhile_front front _ (front ++ 34 :: tail'), ← equal'']
    rw [head_dropWhile_whole laid]
    exact marked

/-- Of one member, messages that are the same show the same. -/
theorem sameShown_of_member {key before after : ByteString} {value : Side → ByteString}
    (laid : Laid (.member key before after value :: rest))
    (equal : whole .first (.member key before after value :: rest) =
      whole .second (.member key before after value :: rest)) :
    SameShown (.member key before after value) ∧ whole .first rest = whole .second rest := by
  obtain ⟨-, -, spaces, -, values, ends⟩ := laid.1
  have quotable := (values .first).1
  have quotable' := (values .second).1
  by_cases plain : EndsPlain key
  · have shownEqual : exposed (value .first) ++ whole .first rest =
        exposed (value .second) ++ whole .second rest := by
      simpa [wholeOf, plain] using equal
    simp only [SameShown, plain, if_true]
    rcases exposed_cases quotable with none | ⟨raw, closed, found⟩
    · rcases exposed_cases quotable' with none' | ⟨raw', closed', found'⟩
      · rw [none, none']
        rw [none, none'] at shownEqual
        exact ⟨rfl, shownEqual⟩
      · rw [none, found', List.append_assoc] at shownEqual
        exact absurd shownEqual.symm (no_false_end laid.2 ends closed')
    · rcases exposed_cases quotable' with none' | ⟨raw', closed', found'⟩
      · rw [none', found, List.append_assoc] at shownEqual
        exact absurd shownEqual (no_false_end laid.2 ends closed)
      · rw [found, found', List.append_assoc, List.append_assoc] at shownEqual
        have same := closed.unique closed' shownEqual
        rw [found, found', same.1]
        exact ⟨rfl, same.2⟩
  · have shownEqual : value .first ++ 34 :: whole .first rest =
        value .second ++ 34 :: whole .second rest := by
      simpa [wholeOf, plain, Segment.bytes] using equal
    simp only [SameShown, plain, if_false]
    exact quotable.unique quotable' shownEqual

/-- Messages that are not cut and are the same show the same of every password. -/
theorem hidden_of_whole {room room' : Nat} (laid : Laid segments)
    (fits : (bytes .first segments).length ≤ room)
    (fits' : (bytes .second segments).length ≤ room')
    (equal : whole .first segments = whole .second segments) :
    Hidden room room' segments := by
  induction segments generalizing room room' with
  | nil => trivial
  | cons segment rest induction =>
      rw [bytes_cons, List.length_append] at fits fits'
      have same : SameShown segment ∧ whole .first rest = whole .second rest := by
        cases segment with
        | plain bytes => exact ⟨trivial, List.append_cancel_left equal⟩
        | string raw => exact ⟨trivial, List.append_cancel_left equal⟩
        | member key before after value => exact sameShown_of_member laid equal
      exact .inl ⟨by omega, by omega, same.1,
        induction laid.2 (by omega) (by omega) same.2⟩

end Exposure

section Messages

variable {segments : List Segment}

theorem nonzero_of_printable {raw : ByteString} (printable : ∀ byte ∈ raw, 32 ≤ byte) :
    0 ∉ raw := fun member => absurd (printable 0 member) (by decide)

theorem nonzero_of_space {white : ByteString} (spaces : ∀ byte ∈ white, isSpace byte) :
    0 ∉ white := fun member => absurd (spaces 0 member) (by decide)

/-- No byte of a text is NUL. -/
theorem zero_not_mem_bytes (laid : Laid segments) (side : Side) :
    0 ∉ bytes side segments := by
  induction segments with
  | nil => simp
  | cons segment rest induction =>
      rw [bytes_cons, List.mem_append, not_or]
      refine ⟨?_, induction laid.2⟩
      cases segment with
      | plain bytes => exact fun member => (laid.1 0 member).2.2 rfl
      | string raw =>
          have none := nonzero_of_printable laid.1.2.1
          simp [Segment.bytes, inQuotes, none]
      | member key before after value =>
          obtain ⟨-, printable, spaces, spaces', values, -⟩ := laid.1
          have noneKey := nonzero_of_printable printable
          have noneBefore := nonzero_of_space spaces
          have noneAfter := nonzero_of_space spaces'
          have noneValue := nonzero_of_printable (values side).2
          simp [Segment.bytes, memberHead, inQuotes, noneKey, noneBefore, noneAfter, noneValue]

theorem laid_of_text (derives : Derives .text segments) : Laid segments := by
  have appended : Laid (segments ++ []) := laid_of_derives derives trivial rfl
  rwa [List.append_nil] at appended

/-- The message that is logged for a client's body. -/
theorem messageText_body (derives : Derives .text segments) (side : Side) :
    messageText collectFromSensitive (bodyMessage (bytes side segments)) =
      text "body : " ++ shown side bodyRoom segments := by
  have laid := laid_of_text derives
  have outside : IsOutside (text "body : ") := by decide +kernel
  have announced : Laid (.plain (text "body : ") :: segments) := ⟨outside, laid⟩
  have nulFree := zero_not_mem_bytes announced side
  have body : bodyMessage (bytes side segments) =
      bytes side (.plain (text "body : ") :: segments) := by
    rw [bodyMessage, cStr_of_zero_not_mem (zero_not_mem_bytes laid side)]
    rfl
  have cut : vsnprintf messageSize (bodyMessage (bytes side segments)) =
      (bytes side (.plain (text "body : ") :: segments)).take (messageSize - 1) := by
    rw [body, vsnprintf]
  have nulFreeCut :
      0 ∉ (bytes side (.plain (text "body : ") :: segments)).take (messageSize - 1) :=
    fun member => nulFree (List.mem_of_mem_take member)
  have nulFreeShown :
      0 ∉ redact ((bytes side (.plain (text "body : ") :: segments)).take (messageSize - 1)) := by
    intro member
    rcases mem_replaceAll shortest_pos member with new | old
    · exact absurd new (by decide +kernel)
    · exact nulFreeCut old
  have sensitive : collectFromSensitive &&& collectFromSensitive ≠ 0 := by decide
  simp only [messageText, if_pos sensitive]
  rw [cut, cStr_of_zero_not_mem nulFreeCut, cStr_of_zero_not_mem nulFreeShown]
  rw [redact_eq_shown announced, shown, shownOf, List.take_of_length_le (by decide +kernel)]
  rfl

theorem messageText_of_hidden (derives : Derives .text segments)
    (hidden : Hidden bodyRoom bodyRoom segments) :
    messageText collectFromSensitive (bodyMessage (bytes .first segments)) =
      messageText collectFromSensitive (bodyMessage (bytes .second segments)) := by
  rw [messageText_body derives, messageText_body derives, shown_of_hidden hidden]

theorem hidden_of_messageText (derives : Derives .text segments)
    (fits : (bytes .first segments).length ≤ bodyRoom)
    (fits' : (bytes .second segments).length ≤ bodyRoom)
    (equal : messageText collectFromSensitive (bodyMessage (bytes .first segments)) =
      messageText collectFromSensitive (bodyMessage (bytes .second segments))) :
    Hidden bodyRoom bodyRoom segments := by
  rw [messageText_body derives, messageText_body derives] at equal
  have same := List.append_cancel_left equal
  rw [shown_of_fits fits, shown_of_fits fits'] at same
  exact hidden_of_whole (laid_of_text derives) fits fits' same

/-- Bodies that are equal but for passwords leave the same message where the
passwords stay hidden; without a cut, nowhere else. -/
theorem messages_same (segments : List Segment) (derives : Derives .text segments) :
    (Hidden bodyRoom bodyRoom segments →
      messageText collectFromSensitive (bodyMessage (bytes .first segments)) =
        messageText collectFromSensitive (bodyMessage (bytes .second segments))) ∧
    ((bytes .first segments).length ≤ bodyRoom →
      (bytes .second segments).length ≤ bodyRoom →
      messageText collectFromSensitive (bodyMessage (bytes .first segments)) =
        messageText collectFromSensitive (bodyMessage (bytes .second segments)) →
      Hidden bodyRoom bodyRoom segments) :=
  ⟨messageText_of_hidden derives, hidden_of_messageText derives⟩

/-- So it is with the records that `log_event` writes of them: whatever is logged, they are the
same where the passwords stay hidden; where they are written, and without a cut, nowhere else. -/
theorem records_same (settings : Settings) (source : Source) (fileName functionName : ByteString)
    (lineNumber : Nat) (segments : List Segment) (derives : Derives .text segments)
    (errno errno' : Nat) (errorText errorText' : Option ByteString) :
    (Hidden bodyRoom bodyRoom segments →
      logEvent settings errno errorText (sensitiveDebug source fileName functionName lineNumber)
          (bodyMessage (bytes .first segments)) =
        logEvent settings errno' errorText'
          (sensitiveDebug source fileName functionName lineNumber)
          (bodyMessage (bytes .second segments))) ∧
    (settings.Logs source .debug2 →
      (bytes .first segments).length ≤ bodyRoom →
      (bytes .second segments).length ≤ bodyRoom →
      logEvent settings errno errorText (sensitiveDebug source fileName functionName lineNumber)
          (bodyMessage (bytes .first segments)) =
        logEvent settings errno' errorText'
          (sensitiveDebug source fileName functionName lineNumber)
          (bodyMessage (bytes .second segments)) →
      Hidden bodyRoom bodyRoom segments) := by
  constructor
  · intro hidden
    by_cases logs : settings.Logs source .debug2
    · rw [logEvent_sensitiveDebug logs, logEvent_sensitiveDebug logs,
        messageText_of_hidden derives hidden]
    · have silent : ¬settings.Logs
          (sensitiveDebug source fileName functionName lineNumber).source
          (sensitiveDebug source fileName functionName lineNumber).severity := logs
      rw [logEvent_of_not_logs silent, logEvent_of_not_logs silent]
  · intro logs fits fits' equal
    rw [logEvent_sensitiveDebug logs, logEvent_sensitiveDebug logs, Option.some.injEq] at equal
    exact hidden_of_messageText derives fits fits' (List.append_cancel_left equal)

/-- The two bodies that hold nothing but a password. -/
def onlyPassword (value : Side → ByteString) : List Segment :=
  [.plain [], .plain [123], .plain [], .member password [] [] value, .plain [], .plain [125],
    .plain []]

theorem onlyPassword_derives {value : Side → ByteString} {content : Side → List Nat}
    (spelled : ∀ side, Spelled (value side) (content side)) :
    Derives .text (onlyPassword value) := by
  have white : IsWhite [] := by simp [IsWhite]
  have key : Spelled password (password.map Fin.val) := .of_plain (by decide +kernel)
  have member := Derives.stringMember key white white spelled (.inl rfl)
  exact .text white (.unquoted (.object (.lastMember white member white))) white

/-- A password without quotes. -/
def quietPassword : Side → ByteString
  | .first => [97]
  | .second => [98, 99]

theorem quietPassword_same :
    Hidden bodyRoom bodyRoom (onlyPassword quietPassword) ∧
      messageText collectFromSensitive (bodyMessage (bytes .first (onlyPassword quietPassword))) =
        messageText collectFromSensitive
          (bodyMessage (bytes .second (onlyPassword quietPassword))) := by
  have spelled : ∀ side, Spelled (quietPassword side) ((quietPassword side).map Fin.val) := by
    intro side
    cases side with
    | first => exact .of_plain (by decide +kernel)
    | second => exact .of_plain (by decide +kernel)
  have same := messages_same (onlyPassword quietPassword) (onlyPassword_derives spelled)
  have equal : messageText collectFromSensitive
      (bodyMessage (bytes .first (onlyPassword quietPassword))) =
        messageText collectFromSensitive
          (bodyMessage (bytes .second (onlyPassword quietPassword))) := by
    decide +kernel
  exact ⟨same.2 (by decide +kernel) (by decide +kernel) equal, equal⟩

/-- A password with a quote in it: `a\"b` or `a\"c`. -/
def quotePassword : Side → ByteString
  | .first => [97, 92, 34, 98]
  | .second => [97, 92, 34, 99]

/-- What stands behind the escaped quote is logged. -/
theorem quotePassword_logged :
    ¬ ∀ segments, Derives .text segments →
      messageText collectFromSensitive (bodyMessage (bytes .first segments)) =
        messageText collectFromSensitive (bodyMessage (bytes .second segments)) := by
  intro same
  have quote : shortEscape 34 = some 34 := by decide
  have spelled : ∀ side, ∃ content, Spelled (quotePassword side) content := by
    intro side
    cases side with
    | first =>
        exact ⟨_, .byte 97 (by decide) (by decide) (by decide)
          (.short quote (.byte 98 (by decide) (by decide) (by decide) .nil))⟩
    | second =>
        exact ⟨_, .byte 97 (by decide) (by decide) (by decide)
          (.short quote (.byte 99 (by decide) (by decide) (by decide) .nil))⟩
  have equal := same (onlyPassword quotePassword)
    (onlyPassword_derives fun side => (spelled side).choose_spec)
  exact absurd equal (by decide +kernel)

end Messages

end Cdcm.Logger
