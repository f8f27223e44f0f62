import Cdcm.Logger.LogEvent

/-!
# The message buffer

The buffer of `Logger::log_event` with its text and the NUL behind it.  The text without
passwords is copied back over the zeroed buffer, without a check of its length.
-/

namespace Cdcm.Logger

open Regex

/-! ## The code -/

/-- `memcpy` to the start of a block of memory, or none when it writes behind the block. -/
def memcpy (block source : ByteString) : Option ByteString :=
  if source.length ≤ block.length then some (source ++ block.drop source.length) else none

/-- The zeroed buffer. -/
def zeroed : ByteString := List.replicate messageSize 0

/-- `std::regex_replace` of the text in the buffer. -/
def messageWithoutSensitiveData (buffer : ByteString) : ByteString :=
  replaceAll passwordPattern replacement (cStr buffer)

/-- The buffer behind the replacement of the passwords. -/
def redactBuffer (buffer : ByteString) : Option ByteString :=
  memcpy zeroed (messageWithoutSensitiveData buffer)

/-- A buffer of the size of `message` with a C string. -/
structure MessageBuffer where
  bytes : ByteString
  size : bytes.length = messageSize
  terminated : 0 ∈ bytes

/-- The C string in a buffer. -/
def MessageBuffer.message (buffer : MessageBuffer) : ByteString := cStr buffer.bytes

/-! ## Texts in a buffer -/

/-- A C string is shorter than the block of memory that it is in. -/
theorem cStr_length_lt {bytes : ByteString} (terminated : 0 ∈ bytes) :
    (cStr bytes).length < bytes.length := by
  obtain ⟨front, rest, rfl, _⟩ := List.eq_append_cons_of_mem terminated
  have copied := cStr_length_le front
  rw [cStr_append_zero, List.length_append, List.length_cons]
  omega

theorem MessageBuffer.message_length_lt (buffer : MessageBuffer) :
    buffer.message.length < messageSize :=
  buffer.size ▸ cStr_length_lt buffer.terminated

/-- A text that is shorter than the buffer, with zeros behind it. -/
def MessageBuffer.ofText (message : ByteString) (short : message.length < messageSize) :
    MessageBuffer where
  bytes := message ++ List.replicate (messageSize - message.length) 0
  size := by
    rw [List.length_append, List.length_replicate]
    omega
  terminated := by
    refine List.mem_append_right _ (List.mem_replicate.mpr ⟨?_, rfl⟩)
    omega

/-- The zeros behind a text, with the one that ends it. -/
theorem MessageBuffer.ofText_bytes {message : ByteString}
    (short : message.length < messageSize) :
    (ofText message short).bytes =
      message ++ 0 :: List.replicate (messageSize - message.length - 1) 0 := by
  have room : messageSize - message.length - 1 + 1 = messageSize - message.length := by omega
  rw [ofText, ← List.replicate_succ, room]

/-- Every text without a NUL byte that is short enough is the message of a buffer. -/
theorem MessageBuffer.message_ofText {message : ByteString} (nulFree : 0 ∉ message)
    (short : message.length < messageSize) : (ofText message short).message = message := by
  rw [MessageBuffer.message, ofText_bytes, cStr_append_zero, cStr_of_zero_not_mem nulFree]

/-- The buffer as it is formatted into the zeroed one. -/
def MessageBuffer.format (formatted : ByteString) : MessageBuffer :=
  ofText (vsnprintf messageSize formatted) <| by
    have cut : (vsnprintf messageSize formatted).length ≤ messageSize - 1 :=
      List.length_take_le _ _
    have room : 0 < messageSize := by decide
    omega

/-! ## The replacement -/

/-- What is copied over the zeroed buffer lies in front of its zeros. -/
theorem memcpy_zeroed {source : ByteString} (short : source.length < messageSize) :
    memcpy zeroed source = some (MessageBuffer.ofText source short).bytes := by
  rw [memcpy, zeroed, if_pos (by simpa using short.le), List.drop_replicate]
  rfl

/-- The replacement brings no NUL byte into the text. -/
theorem zero_not_mem_redacted (buffer : ByteString) :
    0 ∉ messageWithoutSensitiveData buffer := by
  intro member
  cases mem_replaceAll shortest_pos member with
  | inl inNew => exact absurd inNew (by decide)
  | inr inMessage => exact zero_not_mem_cStr buffer inMessage

/-- No match is shorter than what replaces it, and matches are disjoint. -/
theorem redacted_length_le (buffer : ByteString) :
    (messageWithoutSensitiveData buffer).length ≤ (cStr buffer).length :=
  replaceAll_length_le shortest_passwordPattern.ge shortest_pos (cStr buffer)

theorem redacted_length_lt_size (buffer : MessageBuffer) :
    (messageWithoutSensitiveData buffer.bytes).length < messageSize :=
  (redacted_length_le buffer.bytes).trans_lt buffer.message_length_lt

/-- The buffer holds the text without passwords. -/
theorem redactBuffer_eq (buffer : MessageBuffer) :
    redactBuffer buffer.bytes =
      some (MessageBuffer.ofText _ (redacted_length_lt_size buffer)).bytes :=
  memcpy_zeroed (redacted_length_lt_size buffer)

/-- The text without passwords is not longer than the text before: it is copied back in bounds,
with a NUL byte behind it. -/
theorem redact_in_bounds (buffer : MessageBuffer) :
    (messageWithoutSensitiveData buffer.bytes).length ≤ buffer.message.length ∧
      ∃ after : MessageBuffer, redactBuffer buffer.bytes = some after.bytes ∧
        after.message = messageWithoutSensitiveData buffer.bytes ∧
        after.bytes[(messageWithoutSensitiveData buffer.bytes).length]? = some 0 := by
  refine ⟨redacted_length_le buffer.bytes, _, redactBuffer_eq buffer, ?_, ?_⟩
  · exact MessageBuffer.message_ofText (zero_not_mem_redacted buffer.bytes) _
  · rw [MessageBuffer.ofText_bytes]
    simp

/-- The text of a record that may hold passwords is the one in the buffer. -/
theorem messageText_of_sensitive {collect : Nat}
    (sensitive : collect &&& collectFromSensitive ≠ 0) (formatted : ByteString) :
    (redactBuffer (MessageBuffer.format formatted).bytes).map cStr =
      some (messageText collect formatted) := by
  have same : cStr (MessageBuffer.format formatted).bytes =
      cStr (vsnprintf messageSize formatted) := by
    rw [MessageBuffer.format, MessageBuffer.ofText_bytes, cStr_append_zero]
  rw [redactBuffer_eq, Option.map_some, MessageBuffer.ofText_bytes, cStr_append_zero, messageText,
    if_pos sensitive, messageWithoutSensitiveData, same]

end Cdcm.Logger
