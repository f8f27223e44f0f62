import Cdcm.Lib.Bytes
import Cdcm.Lib.Regex

/-!
# Log events

`Logger::log_event` of `Logger.cpp`: the formatted message is cut to the
message buffer, passwords are taken out of it when it was announced as
sensitive, and the record names where it comes from.
-/

namespace Cdcm.Logger

open Regex

/-- `severity_levels` -/
inductive SeverityLevel where
  | debug1
  | debug2
  | info
  | warning
  | error
  deriving DecidableEq, Repr

/-- The flag of a severity level. -/
def SeverityLevel.flag : SeverityLevel → Nat
  | .debug1 => 1
  | .debug2 => 2
  | .info => 4
  | .warning => 8
  | .error => 16

/-- `severity_levelsArray` -/
def SeverityLevel.name : SeverityLevel → ByteString
  | .debug1 => text "debug1"
  | .debug2 => text "debug2"
  | .info => text "info"
  | .warning => text "warning"
  | .error => text "error"

/-- `sources` -/
inductive Source where
  | broker
  | worker
  | supervisor
  | tester
  deriving DecidableEq, Repr

/-- The flag of a source. -/
def Source.flag : Source → Nat
  | .broker => 1
  | .worker => 2
  | .supervisor => 4
  | .tester => 8

/-- `COLLECT_FROM_ERNO` -/
def collectFromErno : Nat := 4

/-- `COLLECT_FROM_SENSITIVE` -/
def collectFromSensitive : Nat := 8

/-- Which sources and which of their levels are logged. -/
structure Settings where
  supportedSources : Nat
  sourceLevel : Source → Nat

/-- The source is supported, and the severity is enabled in it. -/
def Settings.Logs (settings : Settings) (source : Source) (severity : SeverityLevel) : Prop :=
  settings.supportedSources &&& source.flag ≠ 0 ∧
    settings.sourceLevel source &&& severity.flag ≠ 0

/-- The arguments of `log_event` in front of the format. -/
structure Event where
  severity : SeverityLevel
  collect : Nat
  fileName : ByteString
  functionName : ByteString
  lineNumber : Nat
  source : Source

/-- The size of the message buffer. -/
def messageSize : Nat := 4096

/-- Write a formatted text into a buffer, with room for the closing NUL. -/
def vsnprintf (size : Nat) (formatted : ByteString) : ByteString :=
  formatted.take (size - 1)

/-- `\s` -/
def isSpace (byte : Byte) : Bool := byte = 32 ∨ (9 ≤ byte ∧ byte ≤ 13)

/-- `.`, which stands for no line break. -/
def inLine (byte : Byte) : Bool := byte ≠ 10 ∧ byte ≠ 13

/-- A text that a pattern asks for byte by byte. -/
def literal (bytes : ByteString) : Pattern Byte :=
  bytes.map fun byte => .one (· = byte)

/-- `"password"` in quotes. -/
def quotedPassword : ByteString := text "\"password\""

/-- `"password"(\s*?):(\s*?)"(.*?)"` -/
def passwordPattern : Pattern Byte :=
  literal quotedPassword ++
    [.lazily isSpace, .one (· = 58), .lazily isSpace, .one (· = 34),
      .lazily inLine, .one (· = 34)]

/-- The member with an empty password. -/
def replacement : ByteString := text "\"password\":\"\""

/-- The message text of a record. -/
def messageText (collect : Nat) (formatted : ByteString) : ByteString :=
  let message := cStr (vsnprintf messageSize formatted)
  if collect &&& collectFromSensitive ≠ 0 then
    cStr (replaceAll passwordPattern replacement message)
  else
    message

/-- The part of a path behind its last separator. -/
def pathToFilename (path : ByteString) : ByteString :=
  (path.reverse.takeWhile fun byte => byte ≠ 47 ∧ byte ≠ 92).reverse

/-- The decimal digits of a number. -/
def digits (value : Nat) : ByteString := text (Nat.repr value)

/-- `read_error_from_errno`, given the text of `strerror` if it has one. -/
def readErrorFromErrno (errno : Nat) (errorText : Option ByteString) : ByteString :=
  text "(errno=" ++ digits errno ++
    (match errorText with
      | some described => text " " ++ described
      | none => []) ++
    text ") "

/-- Fill up to the width of seven. -/
def leftAligned (name : ByteString) : ByteString :=
  name ++ List.replicate (7 - name.length) 32

/-- What a record says about where it comes from. -/
def recordHead (event : Event) : ByteString :=
  text " [" ++ leftAligned event.severity.name ++ text "] " ++
    text "[" ++ pathToFilename event.fileName ++ text ":" ++ digits event.lineNumber ++
    text " " ++ event.functionName ++ text "()" ++ text "] "

/-- `log_event`: the record that is written, or none. -/
def logEvent (settings : Settings) (errno : Nat) (errorText : Option ByteString)
    (event : Event) (formatted : ByteString) : Option ByteString :=
  if settings.supportedSources &&& event.source.flag = 0 then none
  else if settings.sourceLevel event.source &&& event.severity.flag = 0 then none
  else
    let errnoMsg :=
      if event.collect &&& collectFromErno ≠ 0 then readErrorFromErrno errno errorText else []
    some (recordHead event ++ messageText event.collect formatted ++ errnoMsg)

/-- What `client_process` formats of a client's body. -/
def bodyMessage (body : ByteString) : ByteString := text "body : " ++ cStr body

/-- `AU_LOG_SENSITIVE_DATA_DEBUG` in `client_process`. -/
def sensitiveDebug (source : Source) (fileName functionName : ByteString)
    (lineNumber : Nat) : Event where
  severity := .debug2
  collect := collectFromSensitive
  fileName := fileName
  functionName := functionName
  lineNumber := lineNumber
  source := source

/-- The record of a client's body: nothing is collected from `errno`. -/
theorem logEvent_sensitiveDebug {settings : Settings} {source : Source}
    (logs : settings.Logs source .debug2) (errno : Nat) (errorText : Option ByteString)
    (fileName functionName : ByteString) (lineNumber : Nat) (formatted : ByteString) :
    logEvent settings errno errorText (sensitiveDebug source fileName functionName lineNumber)
        formatted =
      some (recordHead (sensitiveDebug source fileName functionName lineNumber) ++
        messageText collectFromSensitive formatted) := by
  have quiet : ¬collectFromSensitive &&& collectFromErno ≠ 0 := by decide
  rw [logEvent, sensitiveDebug, if_neg logs.1, if_neg logs.2, if_neg quiet]
  exact congrArg some (List.append_nil _)

/-- Where it is not logged, there is no record. -/
theorem logEvent_of_not_logs {settings : Settings} {event : Event}
    (silent : ¬settings.Logs event.source event.severity) (errno : Nat)
    (errorText : Option ByteString) (formatted : ByteString) :
    logEvent settings errno errorText event formatted = none := by
  rw [logEvent]
  by_cases unsupported : settings.supportedSources &&& event.source.flag = 0
  · rw [if_pos unsupported]
  · rw [if_neg unsupported, if_pos (by_contra fun enabled => silent ⟨unsupported, enabled⟩)]

/-- The shortest match is as long as what replaces it. -/
theorem shortest_passwordPattern : shortest passwordPattern = replacement.length := by
  decide +kernel

theorem shortest_pos : 0 < shortest passwordPattern := by
  rw [shortest_passwordPattern]
  decide +kernel

end Cdcm.Logger
