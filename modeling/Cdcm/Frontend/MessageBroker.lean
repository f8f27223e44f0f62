import Cdcm.Frontend.LocalActions
import Cdcm.Frontend.WorkerContainer
import Cdcm.Zmq.Message

/-!
# The broker

The class `message_broker`: a router between clients on an external socket and
workers on an internal one.  A method that aborts, by an assertion or by undefined
behaviour, has no result.  A journal records, for statements about runs only, what
passes the sockets and the state of the worker store at that moment.
-/

namespace Cdcm.Frontend

open Json Protocol SessionsCache Zmq

/-- The two sockets of the broker. -/
inductive Socket where
  | internal
  | external
  deriving DecidableEq, Repr

/-- An entry of the journal: a command that `worker_process` reads, a request
that `client_process` hands to `service_dispatch`, or a message that goes out,
with the worker store at that moment. -/
inductive Traffic where
  | command (sender command : ByteString)
  | handed (msg : Zmsg)
  | sent (socket : Socket) (msg : Zmsg) (workers : WorkerContainer)

/-- `message_broker`, with the journal of its run. -/
structure MessageBroker where
  workers : WorkerContainer
  requests : List (Zmsg × ByteString)
  replied : Nat
  sessions : SharedMemSessionsCache
  journal : List Traffic

/-- The arguments of a call of `service_dispatch`. The handlers that call it do so
as their last act, so they return the call and the broker loop makes it. -/
structure DispatchCall where
  msg : Option Zmsg
  id : ByteString
  deriving DecidableEq, Repr

/-- What a handler leaves behind. -/
abbrev Handled := Option (MessageBroker × Option DispatchCall)

/-- The readings of the clock while a worker message is handled. -/
structure WorkerClock where
  insert : Int
  update : Int
  purge : Int
  deriving DecidableEq, Repr

/-- What handling a client message reads from its surroundings: clocks, and the
input of each local action by its position. -/
structure ClientInput where
  malformed : Int
  touch : Int
  session : Int
  acts : Nat → ActInput
  purge : Int

/-- The actions of a client message that were extracted before a fault. -/
structure Extraction where
  hdr : Header
  known : List ActionMsg
  unknown : List Object

/-- Read one element of `msgs`: the message of a local action, or the object of
another one. -/
def readAction (actMsg : Value) : Except Fault (ActionMsg ⊕ Object) := do
  let actionObj ← actMsg.getObject
  let actKey ← Object.firstKey actionObj
  match LocalAction.find actKey with
  | some act1 =>
      let actM ← act1.getMessage actMsg
      return .inl actM
  | none => return .inr actionObj

/-- Push what was read to the known or the unknown actions. -/
def Extraction.push (extraction : Extraction) : ActionMsg ⊕ Object → Extraction
  | .inl actM => { extraction with known := extraction.known ++ [actM] }
  | .inr actionObj => { extraction with unknown := extraction.unknown ++ [actionObj] }

/-- Read the elements of `msgs` up to the first fault. -/
def extractActions : List Value → Extraction → Extraction × Option Fault
  | [], extraction => (extraction, none)
  | actMsg :: rest, extraction =>
      match readAction actMsg with
      | .ok action => extractActions rest (extraction.push action)
      | .error fault => (extraction, some fault)

/-- The object of a client message and its header. -/
def extractHeader (library : Library) (mstr : ByteString) :
    Except Fault (Object × Header) :=
  match library.fromString mstr with
  | none => .error .exception
  | some reqBodyAsJson => do
      let msgObject ← reqBodyAsJson.getObject
      let hdr ← Header.ofValue (← Object.at msgObject (text "H"))
      return (msgObject, hdr)

/-- The `try` block of `client_process`: what it has filled in when it ends or
when a fault leaves it. -/
def extract (library : Library) (mstr : ByteString) : Extraction × Option Fault :=
  match extractHeader library mstr with
  | .error fault => (⟨.new, [], []⟩, some fault)
  | .ok (msgObject, hdr) =>
      match (Object.at msgObject (text "msgs")).bind Value.getArray with
      | .error fault => (⟨hdr, [], []⟩, some fault)
      | .ok msgsArray => extractActions msgsArray ⟨hdr, [], []⟩

namespace MessageBroker

/-- A broker at its start. -/
def new (heartbeatExpiry : Nat) (sessions : SharedMemSessionsCache) : MessageBroker :=
  ⟨.empty heartbeatExpiry, [], 0, sessions, []⟩

variable (broker : MessageBroker)

/-- Note something in the journal. -/
def record (entry : Traffic) : MessageBroker :=
  { broker with journal := broker.journal ++ [entry] }

/-- `zmsg::send` on one of the sockets. -/
def sendOn (socket : Socket) (msg : Zmsg) : Option MessageBroker := do
  let _frames ← msg.send
  return broker.record (.sent socket msg broker.workers)

/-- The message that `worker_send` builds. -/
def workerMessage (worker : Worker) (command option : ByteString)
    (msg : Option Zmsg) : Zmsg :=
  let msg := msg.getD .empty
  let msg := if option ≠ [] then msg.pushFront option else msg
  ((msg.pushFront command).pushFront mdpwWorker).wrap worker.identity (some [])

/-- `worker_send`. -/
def workerSend (worker : Worker) (command option : ByteString) (msg : Option Zmsg) :
    Option MessageBroker :=
  broker.sendOn .internal (workerMessage worker command option msg)

/-- `worker_require`. -/
def workerRequire (now : Int) (identity : ByteString) :
    Option (MessageBroker × Worker) :=
  if identity.length = 0 then none
  else
    match broker.workers.get identity with
    | some worker => some (broker, worker)
    | none =>
        let worker := Worker.new identity
        some ({ broker with workers := broker.workers.insert now worker }, worker)

/-- `worker_delete`. -/
def workerDelete (worker : Worker) (sendDisconnect : Bool) : Option MessageBroker := do
  let broker ← if sendDisconnect then broker.workerSend worker mdpwDisconnect [] none
    else some broker
  return { broker with workers := (broker.workers.erase worker.identity).1 }

/-- The idle workers whose expiry has passed. -/
def toCull (now : Int) : List Worker :=
  (broker.workers.idleRange broker.workers.idleWorkers).filter fun worker =>
    worker.expiry ≤ now

/-- `purge_workers`. -/
def purgeWorkers (now : Int) : Option MessageBroker :=
  (broker.toCull now).foldlM (fun broker worker => broker.workerDelete worker false) broker

/-! ## Dispatch -/

/-- The worker that the loop of `service_dispatch` takes for a session. Without
any worker, the null pointer is dereferenced. -/
def selectWorker (sessId : ByteString) : Option Worker :=
  match broker.workers.getByLastWorkedSession sessId with
  | some worker => if !worker.idle then broker.workers.getNextWorker else some worker
  | none => broker.workers.getNextWorker

/-- One turn of the loop of `service_dispatch`: the front request goes to a
worker. -/
def dispatchTurn (id : ByteString) (front : Zmsg × ByteString)
    (rest : List (Zmsg × ByteString)) : Option MessageBroker := do
  let worker ← broker.selectWorker front.2
  let broker := { broker with requests := rest }
  let broker ← broker.workerSend worker mdpwRequest [] (some front.1)
  let workers := (broker.workers.setBusy worker.identity).1
  let (workers, _) ← workers.updateLastWorked worker.identity id
  return { broker with workers := workers }

/-- The loop of `service_dispatch` over the queued requests. The range of idle
workers was taken before the loop, and is compared before the queue is looked at. -/
def dispatchLoop (range : WorkerIterator × WorkerIterator) (id : ByteString)
    (pending : List (Zmsg × ByteString)) (broker : MessageBroker) : Option MessageBroker :=
  if !WorkerIterator.same range.1 range.2 then
    match pending with
    | [] => some broker
    | front :: rest => do
        let broker ← broker.dispatchTurn id front rest
        dispatchLoop range id rest broker
  else some broker

@[simp] theorem dispatchLoop_nil (range : WorkerIterator × WorkerIterator) (id : ByteString)
    (broker : MessageBroker) : dispatchLoop range id [] broker = some broker := by
  rw [dispatchLoop, ite_self]

theorem dispatchLoop_cons (range : WorkerIterator × WorkerIterator) (id : ByteString)
    (front : Zmsg × ByteString) (rest : List (Zmsg × ByteString)) (broker : MessageBroker) :
    dispatchLoop range id (front :: rest) broker =
      if !WorkerIterator.same range.1 range.2 then do
        let broker ← broker.dispatchTurn id front rest
        dispatchLoop range id rest broker
      else some broker := rfl

/-- Queue a message, if any. -/
def enqueue (call : DispatchCall) : MessageBroker :=
  match call.msg with
  | some msg => { broker with requests := broker.requests ++ [(msg, call.id)] }
  | none => broker

/-- `service_dispatch`. -/
def serviceDispatch (now : Int) (call : DispatchCall) : Option MessageBroker := do
  let broker := broker.enqueue call
  let broker ← broker.purgeWorkers now
  dispatchLoop broker.workers.idleWorkers call.id broker.requests broker

/-! ## Messages of workers -/

/-- `worker_waiting`. -/
def workerWaiting (clock : WorkerClock) (worker : Worker) : Handled := do
  let workers := (broker.workers.setIdle worker.identity).1
  let (workers, _) ← workers.updateExpiration clock.update worker.identity
  return ({ broker with workers := workers }, some ⟨none, []⟩)

/-- The reply that `worker_process` forwards to a client. -/
def clientReply (client : ByteString) (msg : Zmsg) : Zmsg :=
  (msg.wrap mdpcClient (some [])).wrap client (some [])

/-- The branch of `worker_process` for a reply of a registered worker. -/
def forwardReply (clock : WorkerClock) (worker : Worker) (msg : Zmsg) : Handled := do
  let (client, msg) := msg.unwrap
  if client = [] then return (broker, none)
  let broker ← broker.sendOn .external (clientReply client msg)
  let broker := { broker with replied := broker.replied + 1 }
  broker.workerWaiting clock worker

/-- The branches of `worker_process`. -/
def processCommand (clock : WorkerClock) (sender : ByteString) (workerReady : Bool)
    (worker : Worker) (command : ByteString) (msg : Zmsg) : Handled := do
  if command = mdpwReady then
    if workerReady then return (← broker.workerDelete worker true, none)
    else broker.workerWaiting clock worker
  else if command = mdpwReply then
    if workerReady then broker.forwardReply clock worker msg
    else return (← broker.workerDelete worker true, none)
  else if command = mdpwHeartbeat then
    if workerReady then
      let (workers, _) ← broker.workers.updateExpiration clock.update sender
      return ({ broker with workers := workers }, none)
    else return (← broker.workerDelete worker true, none)
  else if command = mdpwDisconnect then
    return (← broker.workerDelete worker false, none)
  else return (broker, none)

/-- `worker_process`. -/
def workerProcess (clock : WorkerClock) (sender : ByteString) (msg : Zmsg) :
    Handled := do
  if msg.parts < 1 then none
  let (part, msg) := msg.popFront
  let command := cStr part
  let broker := broker.record (.command sender command)
  let workerReady := broker.workers.exists sender
  let (broker, worker) ← broker.workerRequire clock.insert sender
  broker.processCommand clock sender workerReady worker command msg

/-! ## Messages of clients -/

section Client

variable (env : Environment)

/-- `get_session` of the server. -/
def getSession (now : Int) (sessionId : ByteString) : MessageBroker × Option Session :=
  let (sessions, sess) := broker.sessions.getSessionBy env.uuidText .id now sessionId
  ({ broker with sessions := sessions }, sess)

/-- The reply that `send_local_to_client` builds. -/
def localReply (sender client body : ByteString) : Zmsg :=
  ((Zmsg.empty.bodySet body).wrap mdpcClient (some client)).wrap sender (some [])

/-- `send_local_to_client`. -/
def sendLocalToClient (resultMessage : ResMsg) (sender client : ByteString) :
    Option MessageBroker :=
  if client ≠ [] ∧ sender ≠ [] then do
    let resBody ← resultMessage.print env.library (some 2)
    broker.sendOn .external (localReply sender client resBody)
  else some broker

/-- `do_act`: the broker and the results with one more. -/
def doAct (sess : Option Session) (input : ActInput) (actionMessage : ActionMsg)
    (msgs : List ResultMsg) : Option (MessageBroker × List ResultMsg) := do
  let (sessions, res) ← actionMessage.act env broker.sessions sess input .new
  return ({ broker with sessions := sessions, replied := broker.replied + 1 }, msgs ++ [res])

/-- The `catch` block of `client_process`. -/
def rejectMalformed (now : Int) (hdr : Header) (sender : ByteString) (msg : Zmsg) :
    Option (MessageBroker × Zmsg) := do
  let (broker, _) := broker.getSession env now hdr.sessionId
  let res ← { ResultMsg.new with id := text "N/A" }.setResponseForError .malformedMessage
  let (client, msg) := msg.unwrap
  let broker ← broker.sendLocalToClient env ⟨hdr, [res]⟩ sender client
  return (broker, msg)

/-- How the `try` block of `client_process` ends: an exception is caught, and
undefined behaviour has no result. -/
def endTry (now : Int) (hdr : Header) (sender : ByteString) (msg : Zmsg) :
    Option Fault → Option (MessageBroker × Zmsg)
  | none => some (broker, msg)
  | some .exception => broker.rejectMalformed env now hdr sender msg
  | some .undefined => none

/-- The touch of the session in `client_process`. -/
def touchSession (now : Int) (hdr : Header) : MessageBroker :=
  if hdr.sessionId ≠ text "N/A" then
    { broker with
      sessions := (broker.sessions.touchBy env.uuidText .id now hdr.sessionId).1 }
  else broker

/-- The part of `client_process` that executes the known actions. -/
def runKnown (input : ClientInput) (extraction : Extraction) (sender : ByteString)
    (msg : Zmsg) : Option MessageBroker :=
  if extraction.known ≠ [] then do
    let (broker, sess) := broker.getSession env input.session extraction.hdr.sessionId
    let (broker, msgs) ← extraction.known.zipIdx.foldlM
      (fun (broker, msgs) (actionMessage, position) =>
        broker.doAct env sess (input.acts position) actionMessage msgs)
      (broker, [])
    let (client, _) := msg.unwrap
    broker.sendLocalToClient env ⟨extraction.hdr, msgs⟩ sender client
  else some broker

/-- The request that `client_process` makes of the unknown actions. -/
def workerRequest (extraction : Extraction) (sender : ByteString) : Zmsg :=
  let v := RawMsg.toValue ⟨extraction.hdr, extraction.unknown⟩
  (Zmsg.empty.bodySet (env.library.toString (some 2) v)).wrap sender (some [])

/-- The part of `client_process` that passes the unknown actions on. -/
def passUnknown (extraction : Extraction) (sender : ByteString) :
    MessageBroker × Option DispatchCall :=
  if extraction.unknown ≠ [] then
    let m := workerRequest env extraction sender
    (broker.record (.handed m), some ⟨some m, extraction.hdr.sessionId⟩)
  else (broker, none)

/-- `client_process`. After the `catch` block, execution goes on. -/
def clientProcess (input : ClientInput) (sender : ByteString) (msg : Zmsg) :
    Handled := do
  if msg.parts < 2 then none
  let mstr := cStr (msg.body.getD [])
  let (extraction, fault) := extract env.library mstr
  let (broker, msg) ← broker.endTry env input.malformed extraction.hdr sender msg fault
  let broker := broker.touchSession env input.touch extraction.hdr
  let broker ← broker.runKnown env input extraction sender msg
  return broker.passUnknown env extraction sender

end Client

/-! ## The broker loop -/

/-- `handle_message`. The trace of what is left behind the delimiter indexes its last
part. -/
def handleMessage (frames : List ByteString) (expectedOrigin : ByteString)
    (processFunc : ByteString → Zmsg → Handled) : Handled :=
  let msg := Zmsg.recv frames
  if msg.parts = 0 then some (broker, none)
  else
    let (part, msg) := msg.popFront
    let sender := cStr part
    let (_, msg) := msg.popFront
    if msg.parts = 0 then none
    else
      let (part, msg) := msg.popFront
      let header := cStr part
      if header = expectedOrigin then processFunc sender msg else some (broker, none)

/-- The heartbeat timer of `broker_loop`. -/
def onTimer (now : Int) : Option MessageBroker := do
  let broker ← broker.purgeWorkers now
  (broker.workers.idleRange broker.workers.idleWorkers).foldlM
    (fun broker worker => broker.workerSend worker mdpwHeartbeat [] none) broker

end MessageBroker

/-- What a turn of `broker_loop` reacts to: a message on one of the sockets, or
the heartbeat timer. Other processes write the shared segment in between. -/
inductive BrokerEvent where
  | worker (frames : List ByteString) (clock : WorkerClock)
  | client (frames : List ByteString) (input : ClientInput)
  | timer (now : Int)
  | segment (sessions : SharedMemSessionsCache)

namespace MessageBroker

variable (env : Environment)

/-- The handler of an event, without the call of `service_dispatch` at its end. -/
def handle (broker : MessageBroker) : BrokerEvent → Handled
  | .worker frames clock =>
      broker.handleMessage frames mdpwWorker (broker.workerProcess clock)
  | .client frames input =>
      broker.handleMessage frames mdpcClient (broker.clientProcess env input)
  | .timer now => do return (← broker.onTimer now, none)
  | .segment sessions => some ({ broker with sessions := sessions }, none)

/-- The time at which a dispatch that ends the event purges. -/
def purgeTime : BrokerEvent → Int
  | .worker _ clock => clock.purge
  | .client _ input => input.purge
  | .timer now => now
  | .segment _ => 0

/-- Handle one event. -/
def step (broker : MessageBroker) (event : BrokerEvent) : Option MessageBroker := do
  let (broker, call) ← broker.handle env event
  match call with
  | some call => broker.serviceDispatch (purgeTime event) call
  | none => some broker

end MessageBroker

end Cdcm.Frontend
