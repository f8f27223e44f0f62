import Cdcm.Backend.RepliesDue
import Cdcm.Frontend.Assignment
import Cdcm.System.Addressing

/-!
# The network of a broker and its workers

One broker and any number of worker processes. Between them is a channel for each identity
in each direction, which delivers messages in the order in which they were sent. Processes
and broker take their steps in any order; a worker that connects anew does so under a new
identity, and nobody reads the channel of the old one.
-/

namespace Cdcm.System

open Json Protocol Zmq Backend Frontend SessionsCache Machine

/-- The messages on their way from or to each identity, the oldest first. -/
abbrev Channels := ByteString → List (List ByteString)

namespace Channels

variable (channels : Channels)

/-- A message is sent. -/
def push (peer : ByteString) (wire : List ByteString) : Channels :=
  Function.update channels peer (channels peer ++ [wire])

/-- The oldest message is received. -/
def pop (peer : ByteString) : Channels := Function.update channels peer (channels peer).tail

/-- A worker sends a message. -/
def post (sent : Sent) : Channels :=
  match sent.msg.send with
  | some wire => channels.push sent.identity wire
  | none => channels

end Channels

/-- The identity that a message of the broker is routed to, and the frames it gets. -/
def routed : Traffic → Option (ByteString × List ByteString)
  | .sent .internal msg _ =>
      match msg.send with
      | some (peer :: wire) => some (peer, wire)
      | _ => none
  | _ => none

/-- The broker sends a message. -/
def Channels.route (channels : Channels) (entry : Traffic) : Channels :=
  match routed entry with
  | some (peer, wire) => channels.push peer wire
  | none => channels

/-- The broker, the connected processes, the channels, and how often the broker has taken
each worker for idle again. -/
structure Network where
  broker : MessageBroker
  processes : ByteString → Option MessageWorker
  toBroker : Channels
  toWorker : Channels
  freed : ByteString → Nat

/-- A process starts or takes a step, the broker receives the oldest message of a worker, or
it reacts to something else. -/
inductive NetworkEvent where
  | start (peer : ByteString) (connect handle : Int)
  | process (peer : ByteString) (event : WorkerEvent)
  | deliver (peer : ByteString) (clock : WorkerClock)
  | client (frames : List ByteString) (input : ClientInput)
  | timer (now : Int)
  | segment (sessions : SharedMemSessionsCache)

/-- The broker has registered a worker as busy. -/
def busy (broker : MessageBroker) (peer : ByteString) : Bool :=
  (broker.workers.get peer).any fun worker => !worker.idle

namespace Network

/-- A broker without workers. -/
def new (heartbeatExpiry : Nat) (sessions : SharedMemSessionsCache) : Network :=
  ⟨.new heartbeatExpiry sessions, fun _ => none, fun _ => [], fun _ => [], fun _ => 0⟩

section Steps

variable (env : Environment) (workerEnv : WorkerEnvironment) (net : Network)

/-- A process with this journal, which was connected as `peer`, has become another one. -/
def moved (peer : ByteString) (journal : List Sent) (next : MessageWorker) : Network :=
  { net with
    processes := Function.update (Function.update net.processes peer none) next.identity
      (some next)
    toBroker := (next.journal.drop journal.length).foldl Channels.post net.toBroker }

/-- A process reads the oldest message on its channel, if it reads any. -/
def arrives (peer : ByteString) : WorkerEvent → Option Channels
  | .poll input =>
      match input.frames with
      | some frames =>
          if (net.toWorker peer).head? = some frames then some (net.toWorker.pop peer) else none
      | none => some net.toWorker
  | .retry _ | .serve _ => some net.toWorker

/-- A connected process takes a step. A router refuses a second peer of an identity. -/
def processStep (peer : ByteString) (event : WorkerEvent) : Option Network := do
  let process ← net.processes peer
  let toWorker ← net.arrives peer event
  let next ← process.step workerEnv event
  if next.identity ≠ peer ∧ (net.processes next.identity).isSome then none
  else some ({ net with toWorker := toWorker }.moved peer process.journal next)

/-- What the broker reacts to. -/
def brokerEvent : NetworkEvent → Option BrokerEvent
  | .start .. | .process .. => none
  | .deliver peer clock => (net.toBroker peer).head?.map fun wire => .worker (peer :: wire) clock
  | .client frames input => some (.client frames input)
  | .timer now => some (.timer now)
  | .segment sessions => some (.segment sessions)

/-- The broker receives what it reacts to. -/
def received : NetworkEvent → Network
  | .deliver peer _ => { net with toBroker := net.toBroker.pop peer }
  | _ => net

/-- The broker has become another one, and what it has sent is on its way. -/
def advance (broker : MessageBroker) : Network :=
  { net with
    broker := broker
    toWorker := (broker.journal.drop net.broker.journal.length).foldl Channels.route
      net.toWorker }

/-- The broker's handler, and the call of `service_dispatch` that it leaves. -/
def heard (event : NetworkEvent) : Option (Network × Option DispatchCall) := do
  let (broker, call) ← net.broker.handle env (← net.brokerEvent event)
  let freed peer :=
    net.freed peer + if busy net.broker peer && !busy broker peer then 1 else 0
  return ({ (net.received event).advance broker with freed := freed }, call)

/-- The broker reacts to something. -/
def brokerStep (event : NetworkEvent) : Option Network := do
  let brokerEvent ← net.brokerEvent event
  let (behind, call) ← net.heard env event
  match call with
  | some call => do
      let broker ← behind.broker.serviceDispatch (MessageBroker.purgeTime brokerEvent) call
      return behind.advance broker
  | none => some behind

/-- Take a step. -/
def step (event : NetworkEvent) : Option Network :=
  match event with
  | .start peer connect handle =>
      if (net.processes peer).isSome then none
      else (MessageWorker.start workerEnv peer connect handle).map (net.moved peer [])
  | .process peer event => net.processStep workerEnv peer event
  | .deliver .. | .client .. | .timer _ | .segment _ => net.brokerStep env event

end Steps

end Network

end Cdcm.System
