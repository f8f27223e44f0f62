import Cdcm.Backend.PostponedActions
import Cdcm.Zmq.Message

/-!
# The worker

The class `message_worker`: it reads requests from its socket to the broker,
executes their actions and sends the results back; an action may be postponed and
is then answered later, by a reply of its own.  What the actions do is the input of
a step.  A journal records what the worker sends, and which actions the results in
a reply are for.
-/

namespace Cdcm.Backend

open Json Protocol Zmq

/-- `action_status`. -/
inductive ActionStatus where
  | failed
  | succeeded
  | postponed
  deriving DecidableEq, Repr

/-- How a call of `act` ends: it returns, with the response in the result filled
in, or it throws. -/
inductive ActOutcome where
  | returns (status : ActionStatus) (respStatus : RespStatus) (result : Option Value)
  | throws

/-- The call of an action, and the clock in milliseconds behind it. -/
structure ActInput where
  outcome : ActOutcome
  now : Int

/-- The libraries, the plugged-in actions and the settings of a worker process. Of
the message that an action reads, the worker uses the id. -/
structure WorkerEnvironment where
  library : Library
  find : ByteString → Option (Value → Except Fault ByteString)
  heartbeatLiveness : Nat
  heartbeatInterval : Int
  actionPostponeDur : Int
  actionRetriesOnPostpone : Nat

/-- A result, and the action that it is for; a request that cannot be read has a
result for none. -/
structure Answer where
  action : Option Value
  result : ResultMsg

/-- The client, the header and the results of a reply. -/
structure Answered where
  client : ByteString
  hdr : Header
  answers : List Answer

/-- A message that goes out on the socket of an identity. -/
structure Sent where
  identity : ByteString
  msg : Zmsg
  answered : Option Answered

/-- A response that waits for `recv` to send it. -/
structure Reply where
  hdr : Header
  answers : List Answer
  body : ByteString

/-- Where the worker is: in the loop of `handle_postponed_actions`, in front of the
poll of `recv`, or in `worker_loop` with a request. -/
inductive Phase where
  | handling (now : Int)
  | polling
  | serving (request : Zmsg)

/-- `message_worker`, with the pending reply of `worker_loop` and a journal. -/
structure MessageWorker where
  identity : ByteString
  liveness : Nat
  heartbeatAt : Int
  expectReply : Bool
  replyTo : ByteString
  postponedActions : PostponedActionsQueue
  reply : Option Reply
  phase : Phase
  journal : List Sent

/-- What a poll reads from its surroundings: the message, if any, the identity for
a new connection, and clocks in milliseconds. -/
structure PollInput where
  frames : Option (List ByteString)
  identity : ByteString
  connect : Int
  beat : Int
  handle : Int

/-- The calls of the actions of a request by position, and the clock behind them. -/
structure ServeInput where
  acts : Nat → ActInput
  handle : Int

/-- `to_time_t` of a clock in milliseconds. -/
def toTimeT (now : Int) : Int := now / 1000

/-- The header and the actions of a request, as `worker_loop` reads them. -/
def readRequest (library : Library) (mstr : ByteString) :
    Except Fault (Header × List Value) :=
  match library.fromString mstr with
  | none => .error .exception
  | some reqBodyAsJson => do
      let msgObject ← reqBodyAsJson.getObject
      let hdr ← Header.ofValue (← Object.at msgObject (text "H"))
      let msgsArray ← (← Object.at msgObject (text "msgs")).getArray
      return (hdr, msgsArray)

/-- The result for a malformed message. -/
def malformedResult (id : ByteString) : Option ResultMsg :=
  { ResultMsg.new with id := id }.setResponseForError .malformedMessage

/-- Find the plugin of an action by its first key and read the message with it: the
id, or nothing without a plugin. -/
def readId (env : WorkerEnvironment) (actionMessage : Value) :
    Except Fault (Option ByteString) := do
  let actionMsgObj ← actionMessage.getObject
  let actKey ← Object.firstKey actionMsgObj
  match env.find actKey with
  | some getMessage => return some (← getMessage actionMessage)
  | none => return none

/-- The id in the body of an action, or `unknown`. -/
def idOrUnknown : Value → ByteString
  | .object ((_, body) :: _) =>
      match (body.at (text "id")).bind Value.asString with
      | .ok id => id
      | .error _ => text "unknown"
  | _ => text "unknown"

namespace MessageWorker

section Connection

variable (env : WorkerEnvironment) (worker : MessageWorker)

/-- The message that `send_to_broker` builds. -/
def brokerMessage (command option : ByteString) (msg : Option Zmsg) : Zmsg :=
  let msg := msg.getD .empty
  let msg := if option.length ≠ 0 then msg.pushFront option else msg
  ((msg.pushFront command).pushFront mdpwWorker).pushFront []

/-- `send_to_broker`. -/
def sendToBroker (command option : ByteString) (msg : Option Zmsg)
    (answered : Option Answered) : Option MessageWorker := do
  let msg := brokerMessage command option msg
  let _frames ← msg.send
  return { worker with journal := worker.journal ++ [⟨worker.identity, msg, answered⟩] }

/-- `connect_to_broker`, with the identity that `set_id` makes up. -/
def connectToBroker (identity : ByteString) (now : Int) : Option MessageWorker := do
  let worker ← { worker with identity := identity }.sendToBroker mdpwReady [] none none
  return { worker with
    liveness := env.heartbeatLiveness, heartbeatAt := now + env.heartbeatInterval }

/-- The message of a reply. -/
def replyMessage (body client : ByteString) : Zmsg :=
  (Zmsg.empty.emplaceBack body).wrap client (some [])

/-- What `recv` does with the pending reply before it waits. -/
def sendReply : Option MessageWorker :=
  if worker.reply.isNone ∧ worker.expectReply = true then none
  else do
    let worker ← match worker.reply with
      | some reply =>
          if worker.replyTo ≠ [] then do
            let answered : Answered := ⟨worker.replyTo, reply.hdr, reply.answers⟩
            let worker ← { worker with replyTo := [] }.sendToBroker mdpwReply []
              (some (replyMessage reply.body worker.replyTo)) (some answered)
            some { worker with reply := none }
          else some worker
      | none => some worker
    return { worker with expectReply := true }

/-- The worker in front of its first message. -/
def start (identity : ByteString) (connect handle : Int) : Option MessageWorker := do
  let worker : MessageWorker := ⟨identity, env.heartbeatLiveness, 0, false, [], .empty, none,
    .handling (toTimeT handle), []⟩
  let worker ← worker.connectToBroker env identity connect
  worker.sendReply

end Connection

/-! ## Postponed actions -/

section Postponed

variable (env : WorkerEnvironment) (worker : MessageWorker)

/-- The body of the loop of `handle_postponed_actions`. An exception leaves the
process; without a plugin, nothing changes. -/
def retry (input : ActInput) (top : PostponedAction) : Option MessageWorker := do
  match ← (readId env top.actionMessage).toOption with
  | none => some worker
  | some id =>
      match input.outcome with
      | .throws => none
      | .returns status respStatus result =>
          if status = .postponed ∧ top.remainingRuns > 0 then
            some { worker with
              postponedActions := (worker.postponedActions.decrementRunsAndUpdateExpiration
                (toTimeT input.now) id).1 }
          else do
            let actionResult : ResultMsg := ⟨id, respStatus, result⟩
            let replyBody ← ResMsg.print env.library none ⟨top.header, [actionResult]⟩
            let answered : Answered :=
              ⟨top.replyTo, top.header, [⟨some top.actionMessage, actionResult⟩]⟩
            let worker ← worker.sendToBroker mdpwReply []
              (some (replyMessage replyBody top.replyTo)) (some answered)
            some { worker with
              postponedActions := (worker.postponedActions.removeById id).1 }

/-- One turn of the loop of `handle_postponed_actions`, or its end. -/
def handlePostponedAction (now : Int) (input : ActInput) : Option MessageWorker :=
  match worker.postponedActions.top with
  | some top =>
      if top.expirationTime ≤ now then worker.retry env input top
      else some { worker with phase := .polling }
  | none => some { worker with phase := .polling }

end Postponed

/-! ## Messages of the broker -/

section Receive

variable (env : WorkerEnvironment) (worker : MessageWorker)

/-- The end of a turn of the loop of `recv`: the heartbeat, when it is time. -/
def beat (input : PollInput) : Option MessageWorker := do
  let worker ← if input.beat ≥ worker.heartbeatAt then do
      let worker ← worker.sendToBroker mdpwHeartbeat [] none none
      some { worker with heartbeatAt := worker.heartbeatAt + env.heartbeatInterval }
    else some worker
  return { worker with phase := .handling (toTimeT input.handle) }

/-- The branches of `recv` for a command of the broker. -/
def obey (input : PollInput) (command : ByteString) (msg : Zmsg) : Option MessageWorker :=
  if command = mdpwRequest then
    let (replyTo, request) := msg.unwrap
    some { worker with replyTo := replyTo, phase := .serving request }
  else if command = mdpwHeartbeat then worker.beat env input
  else if command = mdpwDisconnect then do
    let worker ← worker.connectToBroker env input.identity input.connect
    worker.beat env input
  else worker.beat env input

/-- A message of the broker; its frames are asserted. -/
def receive (input : PollInput) (frames : List ByteString) : Option MessageWorker :=
  let msg := Zmsg.recv frames
  let worker := { worker with liveness := env.heartbeatLiveness }
  if msg.parts < 3 then none
  else
    let (empty, msg) := msg.popFront
    if empty ≠ [] then none
    else
      let (header, msg) := msg.popFront
      if header ≠ mdpwWorker then none
      else
        let (part, msg) := msg.popFront
        worker.obey env input (cStr part) msg

/-- A poll without a message; the liveness is a 64-bit number. -/
def expire (input : PollInput) : Option MessageWorker :=
  let liveness := (worker.liveness + (2 ^ 64 - 1)) % 2 ^ 64
  let worker := { worker with liveness := liveness }
  if liveness = 0 then do
    let worker ← worker.connectToBroker env input.identity input.connect
    worker.beat env input
  else worker.beat env input

/-- The poll of `recv`. -/
def poll (input : PollInput) : Option MessageWorker :=
  match input.frames with
  | some frames => worker.receive env input frames
  | none => worker.expire env input

end Receive

/-! ## Requests -/

section Serve

variable (env : WorkerEnvironment) (worker : MessageWorker)

/-- Execute one action of a request: its result, or nothing when it is postponed.
An action that the queue refuses is lost. -/
def actOn (hdr : Header) (input : ActInput) (actionMessage : Value) :
    Except Fault (MessageWorker × List Answer) := do
  match ← readId env actionMessage with
  | some id =>
      match input.outcome with
      | .throws => .error .exception
      | .returns status respStatus result =>
          if status = .postponed then
            let pa : PostponedAction := ⟨actionMessage, worker.replyTo, id,
              Fin.ofNat 256 env.actionRetriesOnPostpone,
              toTimeT (input.now + env.actionPostponeDur), hdr⟩
            return ({ worker with postponedActions := (worker.postponedActions.add pa).1 }, [])
          else return (worker, [⟨some actionMessage, ⟨id, respStatus, result⟩⟩])
  | none =>
      match malformedResult (idOrUnknown actionMessage) with
      | some actionResult => return (worker, [⟨some actionMessage, actionResult⟩])
      | none => .error .exception

/-- The loop of `worker_loop` over the actions, up to the first fault; with it, the
action that it is at. -/
def actOnAll (hdr : Header) (acts : Nat → ActInput) : List (Value × Nat) → MessageWorker →
    List Answer → MessageWorker × List Answer × Option (Value × Fault)
  | [], worker, answers => (worker, answers, none)
  | (actionMessage, position) :: rest, worker, answers =>
      match worker.actOn env hdr (acts position) actionMessage with
      | .ok (worker, answer) => actOnAll hdr acts rest worker (answers ++ answer)
      | .error fault => (worker, answers, some (actionMessage, fault))

/-- The first `try` block of `worker_loop` and its handler: the header and the
results of the response. -/
def execute (input : ServeInput) (mstr : ByteString) :
    Option (MessageWorker × Header × List Answer) :=
  match readRequest env.library mstr with
  | .error .undefined => none
  | .error .exception => do
      let actionResult ← malformedResult (text "unknown")
      return (worker, .new, [⟨none, actionResult⟩])
  | .ok (hdr, msgsArray) =>
      match actOnAll env hdr input.acts msgsArray.zipIdx worker [] with
      | (worker, answers, none) => some (worker, hdr, answers)
      | (_, _, some (_, .undefined)) => none
      | (worker, answers, some (actionMessage, .exception)) => do
          let actionResult ← malformedResult (text "unknown")
          return (worker, hdr, answers ++ [⟨some actionMessage, actionResult⟩])

/-- The second `try` block of `worker_loop`: build the reply. When printing throws,
the pending reply stays what it was. -/
def buildReply (hdr : Header) (answers : List Answer) : MessageWorker :=
  if answers ≠ [] then
    match ResMsg.print env.library none ⟨hdr, answers.map Answer.result⟩ with
    | some body => { worker with reply := some ⟨hdr, answers, body⟩ }
    | none => worker
  else { worker with expectReply := false, replyTo := [] }

/-- The body of `worker_loop`, and `recv` up to its loop. A request without parts
has no body to make a string of. -/
def serve (input : ServeInput) (request : Zmsg) : Option MessageWorker := do
  let body ← request.body
  let (worker, hdr, answers) ← worker.execute env input (cStr body)
  let worker ← (worker.buildReply env hdr answers).sendReply
  return { worker with phase := .handling (toTimeT input.handle) }

end Serve

end MessageWorker

/-- The steps of a worker. -/
inductive WorkerEvent where
  | retry (input : ActInput)
  | poll (input : PollInput)
  | serve (input : ServeInput)

namespace MessageWorker

/-- Take a step; none but that of the phase can be taken. -/
def step (env : WorkerEnvironment) (worker : MessageWorker) (event : WorkerEvent) :
    Option MessageWorker :=
  match event, worker.phase with
  | .retry input, .handling now => worker.handlePostponedAction env now input
  | .poll input, .polling => worker.poll env input
  | .serve input, .serving request => worker.serve env input request
  | _, _ => none

end MessageWorker

end Cdcm.Backend
