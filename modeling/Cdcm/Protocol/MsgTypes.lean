import Cdcm.Protocol.Json

/-!
# Message types

The headers, results and raw messages of `msg_types.hpp`, the error tables, and
the JSON form of `protocol.hpp`.
-/

namespace Cdcm.Protocol

open Json

/-- `RESP_GROUP_CODE`. -/
inductive RespGroupCode where
  | ok
  | errorInRequest
  | cdcmInternalError
  | errorWithAsset
  | nonExist
  deriving DecidableEq, Repr

/-- The number of a group. -/
def RespGroupCode.toNat : RespGroupCode → Nat
  | .ok => 1
  | .errorInRequest => 2
  | .cdcmInternalError => 3
  | .errorWithAsset => 4
  | .nonExist => 5

/-- `group_code_description_mapping`; `NON_EXIST` has no entry. -/
def groupCodeDescription : RespGroupCode → Option ByteString
  | .ok => some (text "OK")
  | .errorInRequest => some (text "Error in request")
  | .cdcmInternalError => some (text "CDCM internal error")
  | .errorWithAsset => some (text "Error with asset")
  | .nonExist => none

/-- `CDCM_ERROR`. -/
inductive CdcmError where
  | ok
  | malformedMessage
  | keyAndValueAreMandatory
  | keyIsMandatory
  | badParameter
  | paramIsMandatory
  | pathIsMandatory
  | remoteAndUsernameAreMandatory
  | shareIsMissingInKey
  | shareNameIsMandatory
  | sessionNotFound
  | internalError
  | memoryAllocationFailed
  | parseFileFailed
  | readFileFailed
  | openKeyFailed
  | failedAddingNewSession
  | listFailed
  | generalErrorWithAsset
  | valueIsEmpty
  deriving DecidableEq, Repr

/-- `cdcm_error_mapping`: group, code and text; `PARSE_FILE_FAILED` has no
entry. -/
def cdcmErrorMapping : CdcmError → Option (RespGroupCode × Nat × ByteString)
  | .ok => some (.ok, 101, text "OK")
  | .malformedMessage => some (.errorInRequest, 201, text "Malformed message")
  | .keyAndValueAreMandatory =>
      some (.errorInRequest, 202, text "Key and value are mandatory")
  | .keyIsMandatory => some (.errorInRequest, 203, text "Key is mandatory")
  | .badParameter => some (.errorInRequest, 204, text "Bad parameter")
  | .paramIsMandatory => some (.errorInRequest, 205, text "Param is mandatory")
  | .pathIsMandatory => some (.errorInRequest, 206, text "Path is mandatory")
  | .remoteAndUsernameAreMandatory =>
      some (.errorInRequest, 207, text "Remote and username are mandatory")
  | .shareIsMissingInKey =>
      some (.errorInRequest, 208, text "Share is missing in the provided key")
  | .shareNameIsMandatory =>
      some (.errorInRequest, 209, text "Share name is mandatory")
  | .sessionNotFound => some (.cdcmInternalError, 301, text "Session not found")
  | .internalError => some (.cdcmInternalError, 302, text "Internal error")
  | .memoryAllocationFailed =>
      some (.cdcmInternalError, 303, text "Memory allocation failed")
  | .parseFileFailed => none
  | .readFileFailed => some (.cdcmInternalError, 305, text "Read file failed")
  | .openKeyFailed => some (.cdcmInternalError, 306, text "Open key failed")
  | .failedAddingNewSession =>
      some (.cdcmInternalError, 307, text "Failed adding new session")
  | .listFailed => some (.errorWithAsset, 401, text "List failed")
  | .generalErrorWithAsset => some (.errorWithAsset, 402, text "Error with asset")
  | .valueIsEmpty => some (.errorWithAsset, 403, text "Value is empty")

/-- `resp_status`; the integers are unassigned at first. -/
structure RespStatus where
  codeGroup : Option Nat
  codeGroupDescription : ByteString
  code : Option Nat
  deriving DecidableEq, Repr

/-- `result_msg`; `none` is a value that was never set. -/
structure ResultMsg where
  id : ByteString
  respStatus : RespStatus
  result : Option Value

/-- A default-constructed result. -/
def ResultMsg.new : ResultMsg := ⟨[], ⟨none, [], none⟩, none⟩

/-- `set_resp_status_for_cdcm_error`; `none` when a table has no entry. -/
def RespStatus.setForCdcmError (error : CdcmError) : Option RespStatus := do
  let (group, code, _) ← cdcmErrorMapping error
  let description ← groupCodeDescription group
  return ⟨some group.toNat, description, some code⟩

/-- `set_response_for_success`. -/
def ResultMsg.setResponseForSuccess (res : ResultMsg) (result : Value) :
    Option ResultMsg := do
  let status ← RespStatus.setForCdcmError .ok
  return { res with respStatus := status, result := some result }

/-- `set_response_for_error`. -/
def ResultMsg.setResponseForError (res : ResultMsg) (error : CdcmError) :
    Option ResultMsg := do
  let status ← RespStatus.setForCdcmError error
  let (_, _, message) ← cdcmErrorMapping error
  return { res with
    respStatus := status, result := some (.string (text "Error: " ++ message)) }

/-- `set_response_for_error_with_unique_code_or_msg`: a code of zero and an empty message
stand for those of the table. -/
def ResultMsg.setResponseForErrorWithUniqueCodeOrMsg (res : ResultMsg) (error : CdcmError)
    (errorCode : Nat) (errMsg : ByteString) : Option ResultMsg := do
  let (group, code, message) ← cdcmErrorMapping error
  let description ← groupCodeDescription group
  return { res with
    respStatus := ⟨some group.toNat, description,
      some (if errorCode ≠ 0 then errorCode else code)⟩
    result := some (.string (text "Error: " ++ if errMsg ≠ [] then errMsg else message)) }

/-- `code_group`, `code_group_description` and `code` have been set. -/
def Assigned (status : RespStatus) : Prop :=
  ∃ group code,
    status = ⟨some (RespGroupCode.toNat group), status.codeGroupDescription, some code⟩ ∧
      groupCodeDescription group = some status.codeGroupDescription

/-- `header`. -/
structure Header where
  sessionId : ByteString
  deriving DecidableEq, Repr

/-- A default-constructed header. -/
def Header.new : Header := ⟨[]⟩

/-- `as<header>`: an object with the key `session_id` and no other. -/
def Header.ofValue (value : Value) : Except Fault Header := do
  let members ← value.getObject
  if members.any fun member => member.1 ≠ text "session_id" then
    throw .exception
  let sessionId ← Object.at members (text "session_id")
  return ⟨← sessionId.asString⟩

theorem Header.ofValue_ne_undefined (value : Value) :
    Header.ofValue value ≠ .error .undefined := by
  apply bind_ne_undefined value.getObject_ne_undefined
  intro members
  split
  · nofun
  · apply bind_ne_undefined (Object.at_ne_undefined members _)
    intro sessionId
    apply bind_ne_undefined sessionId.asString_ne_undefined
    nofun

/-- `raw_msg`: a header and the actions as JSON objects. -/
structure RawMsg where
  hdr : Header
  msgs : List Object

/-- `res_msg`: a header and the results. -/
structure ResMsg where
  hdr : Header
  msgs : List ResultMsg

/-! ## JSON form -/

def Header.toValue (hdr : Header) : Value :=
  .object [(text "session_id", .string hdr.sessionId)]

def RawMsg.toValue (message : RawMsg) : Value :=
  .object [(text "H", message.hdr.toValue),
    (text "msgs", .array (message.msgs.map .object))]

section Print

variable (library : Library)

def RespStatus.toValue (status : RespStatus) : Value :=
  .object [(text "code", .unsigned (status.code.getD library.indeterminate)),
    (text "code_group", .unsigned (status.codeGroup.getD library.indeterminate)),
    (text "code_group_description", .string status.codeGroupDescription)]

/-- A result as JSON; printing a value that was never set throws. -/
def ResultMsg.toValue (res : ResultMsg) : Option Value := do
  let result ← res.result
  return .object [(text "id", .string res.id), (text "result", result),
    (text "status", res.respStatus.toValue library)]

def ResMsg.toValue (message : ResMsg) : Option Value := do
  let msgs ← message.msgs.mapM (ResultMsg.toValue library)
  return .object [(text "H", message.hdr.toValue), (text "msgs", .array msgs)]

/-- The text of a response; `none` when printing throws. -/
def ResMsg.print (indent : Option Nat) (message : ResMsg) : Option ByteString :=
  (message.toValue library).map (library.toString indent)

/-- A response prints when each result has been set. -/
theorem ResMsg.print_isSome {indent : Option Nat} {hdr : Header} {msgs : List ResultMsg}
    (areSet : ∀ res ∈ msgs, res.result.isSome = true) :
    (ResMsg.print library indent ⟨hdr, msgs⟩).isSome := by
  have converts : (msgs.mapM (ResultMsg.toValue library)).isSome := by
    induction msgs with
    | nil => rfl
    | cons res rest ih =>
        obtain ⟨result, isResult⟩ := Option.isSome_iff_exists.mp (areSet res List.mem_cons_self)
        obtain ⟨values, others⟩ := Option.isSome_iff_exists.mp
          (ih fun other member => areSet other (List.mem_cons_of_mem _ member))
        simp [ResultMsg.toValue, isResult, others]
  obtain ⟨values, converted⟩ := Option.isSome_iff_exists.mp converts
  simp [ResMsg.print, ResMsg.toValue, converted]

end Print

theorem setResponseForError_isSome (res : ResultMsg) {error : CdcmError}
    (mapped : error ≠ .parseFileFailed) :
    (res.setResponseForError error).isSome := by
  cases error <;> first | rfl | contradiction

/-- Setting a response keeps the id and sets the value. -/
theorem setResponseForError_spec {res set : ResultMsg} {error : CdcmError}
    (done : res.setResponseForError error = some set) :
    set.id = res.id ∧ set.result.isSome := by
  simp only [ResultMsg.setResponseForError, Option.bind_eq_bind,
    Option.bind_eq_some_iff, Option.pure_def, Option.some.injEq] at done
  obtain ⟨status, _, entry, _, rfl⟩ := done
  exact ⟨rfl, rfl⟩

end Cdcm.Protocol
