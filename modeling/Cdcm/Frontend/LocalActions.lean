import Cdcm.Protocol.MsgTypes
import Cdcm.SessionsCache.SharedMem

/-!
# The actions that the broker executes itself

The three actions that register with the dispatcher of the broker process:
`start_session`, `close_session` and `get_cdcm_info`.  Reading the message of an
action may throw; acting fills in a result.
-/

namespace Cdcm.Frontend

open Json Protocol SessionsCache

/-- The libraries and the settings of the broker process. -/
structure Environment where
  library : Library
  uuidText : UuidText
  cdcmVersion : ByteString

/-- The actions in the dispatcher of the broker. -/
inductive LocalAction where
  | startSession
  | closeSession
  | getCdcmInfo
  deriving DecidableEq, Repr

/-- `act_name` of an action. -/
def LocalAction.name : LocalAction → ByteString
  | .startSession => text "start_session"
  | .closeSession => text "close_session"
  | .getCdcmInfo => text "get_cdcm_info"

/-- `Dispatcher::find`. -/
def LocalAction.find (key : ByteString) : Option LocalAction :=
  [.startSession, .closeSession, .getCdcmInfo].find? fun action => action.name = key

/-- The messages that the local actions read. -/
inductive ActionMsg where
  | startSession (id remote domain username password workstation : ByteString)
  | closeSession (id : ByteString)
  | getCdcmInfo (id what : ByteString)
  deriving DecidableEq, Repr

/-- A required string of an action's body. -/
def stringAt (body : Value) (key : ByteString) : Except Fault ByteString := do
  let value ← body.at key
  value.asString

/-- `get_message`. -/
def LocalAction.getMessage (action : LocalAction) (actMsg : Value) :
    Except Fault ActionMsg := do
  let body ← actMsg.at action.name
  let id ← stringAt body (text "id")
  match action with
  | .startSession =>
      let remote ← stringAt body (text "remote")
      let domain ← stringAt body (text "domain")
      let username ← stringAt body (text "username")
      let password ← stringAt body (text "password")
      let workstation ← stringAt body (text "workstation")
      return .startSession id remote domain username password workstation
  | .closeSession => return .closeSession id
  | .getCdcmInfo =>
      let what ← stringAt body (text "what")
      return .getCdcmInfo id what

/-- What one action reads from its surroundings: the clock in seconds, a random
UUID and the fate of allocations in the shared segment. -/
structure ActInput where
  now : Int
  uuid : Uuid
  allocation : Allocation
  deriving DecidableEq, Repr

/-- `Start_Session::act`. -/
def actStartSession (env : Environment) (sessions : SharedMemSessionsCache)
    (input : ActInput) (id remote domain username password workstation : ByteString)
    (res : ResultMsg) : Option (SharedMemSessionsCache × ResultMsg) := do
  if remote = [] ∨ username = [] then
    return (sessions, ← res.setResponseForError .remoteAndUsernameAreMandatory)
  let sess : Session := ⟨input.uuid, remote, ⟨domain, username, password, workstation⟩⟩
  let (sessions, added) := sessions.add env.uuidText input.now input.allocation sess
  if !added then
    return (sessions, ← res.setResponseForError .failedAddingNewSession)
  let res ← { res with id := id }.setResponseForSuccess (.string (sess.idstr env.uuidText))
  return (sessions, res)

/-- `Close_Session::act`. -/
def actCloseSession (env : Environment) (sessions : SharedMemSessionsCache)
    (sess : Option Session) (id : ByteString) (res : ResultMsg) :
    Option (SharedMemSessionsCache × ResultMsg) :=
  match sess with
  | none => do return (sessions, ← res.setResponseForError .sessionNotFound)
  | some sess => do
      if sess.uuid = 0 then
        return (sessions, ← res.setResponseForError .sessionNotFound)
      let (sessions, _) := sessions.removeById (sess.idstr env.uuidText)
      let res ← { res with id := id }.setResponseForSuccess (.string (text "Session closed"))
      return (sessions, res)

/-- `Get_CDCM_Info::act`. -/
def actGetCdcmInfo (env : Environment) (id what : ByteString) (res : ResultMsg) :
    Option ResultMsg :=
  let res := { res with id := id }
  if what = text "cdcm_version" then res.setResponseForSuccess (.string env.cdcmVersion)
  else res.setResponseForError .badParameter

/-- `act` of the action a message belongs to; `none` when it throws. -/
def ActionMsg.act (env : Environment) (sessions : SharedMemSessionsCache)
    (sess : Option Session) (input : ActInput) (res : ResultMsg) :
    ActionMsg → Option (SharedMemSessionsCache × ResultMsg)
  | .startSession id remote domain username password workstation =>
      actStartSession env sessions input id remote domain username password
        workstation res
  | .closeSession id => actCloseSession env sessions sess id res
  | .getCdcmInfo id what => do return (sessions, ← actGetCdcmInfo env id what res)

/-- Every local action completes and sets a result. -/
theorem act_completes (env : Environment) (sessions : SharedMemSessionsCache)
    (sess : Option Session) (input : ActInput) (res : ResultMsg) (message : ActionMsg) :
    ∃ next set, message.act env sessions sess input res = some (next, set) ∧
      set.result.isSome = true := by
  cases message with
  | startSession id remote domain username password workstation =>
      simp only [ActionMsg.act, actStartSession]
      split
      · exact ⟨_, _, rfl, rfl⟩
      · split
        · exact ⟨_, _, rfl, rfl⟩
        · exact ⟨_, _, rfl, rfl⟩
  | closeSession id =>
      simp only [ActionMsg.act, actCloseSession]
      split
      · exact ⟨_, _, rfl, rfl⟩
      · split
        · exact ⟨_, _, rfl, rfl⟩
        · exact ⟨_, _, rfl, rfl⟩
  | getCdcmInfo id what =>
      simp only [ActionMsg.act, actGetCdcmInfo]
      split
      · exact ⟨_, _, rfl, rfl⟩
      · exact ⟨_, _, rfl, rfl⟩

end Cdcm.Frontend
