import Cdcm.Backend.Accounting
import Cdcm.Frontend.BrokerRun

/-!
# Envelopes between client, broker and worker

A request travels from the queue of the broker to a worker, and a reply back to
the client, wrapped and unwrapped in two processes.  A router socket takes the
first frame off a message that goes out and puts it in front of one that comes in.
The results are about clients, workers and bodies that neither the frame codec nor
C strings change.
-/

namespace Cdcm.System

open Json Protocol Zmq Backend Frontend Machine

/-- The text of a value is a plain part. -/
theorem plain_of_prints {library : Library} (prints : library.Prints) (indent : Option Nat)
    (value : Value) : Plain (library.toString indent value) where
  nonempty := prints.nonempty indent value
  nulFree := prints.nulFree indent value
  notUuid shape := prints.noMark indent value shape.2

/-- So is the text of a response. -/
theorem plain_of_isResponse {env : WorkerEnvironment} (prints : env.library.Prints)
    {body : ByteString} (response : MessageWorker.IsResponse env body) : Plain body := by
  obtain ⟨message, printed⟩ := response
  obtain ⟨value, _, rfl⟩ := Option.map_eq_some_iff.mp printed
  exact plain_of_prints prints none value

/-! ## Requests -/

/-- The frames of a request, as a worker receives them. -/
def requestWire (client body : ByteString) : List ByteString :=
  [[], mdpwWorker, mdpwRequest, client, [], body]

/-- The frames of a command without payload, as a worker receives them. -/
def commandWire (command : ByteString) : List ByteString := [[], mdpwWorker, command]

section Request

variable {client body : ByteString}

theorem workerMessage_request_send {worker : Worker} (peer : Plain worker.identity)
    (plainClient : Plain client) (plainBody : Plain body) :
    (MessageBroker.workerMessage worker mdpwRequest [] (some ⟨[client, [], body]⟩)).send =
      some (worker.identity :: requestWire client body) := by
  have command : cStr mdpwRequest = mdpwRequest := by decide
  rw [MessageBroker.workerMessage_eq, peer.cStr_eq, command]
  refine Zmsg.send_eq_self fun part member => ?_
  simp only [Option.getD_some, List.mem_cons, List.not_mem_nil, or_false] at member
  rcases member with rfl | rfl | rfl | rfl | rfl | rfl | rfl
  · exact peer.notUuid
  · decide
  · decide
  · decide
  · exact plainClient.notUuid
  · decide
  · exact plainBody.notUuid

theorem recv_requestWire (plainClient : Plain client) (plainBody : Plain body) :
    Zmsg.recv (requestWire client body) = ⟨requestWire client body⟩ := by
  refine Zmsg.recv_eq_self fun frame member => ?_
  simp only [requestWire, List.mem_cons, List.not_mem_nil, or_false] at member
  rcases member with rfl | rfl | rfl | rfl | rfl | rfl
  · decide
  · decide
  · decide
  · exact plainClient.nulFree
  · decide
  · exact plainBody.nulFree

theorem step_poll {env : WorkerEnvironment} {process : MessageWorker} {input : PollInput}
    {frames : List ByteString} (polling : process.phase = .polling)
    (arrived : input.frames = some frames) :
    process.step env (.poll input) = process.receive env input frames := by
  have isPoll : process.step env (.poll input) = process.poll env input := by
    simp only [MessageWorker.step, polling]
  rw [isPoll, MessageWorker.poll, arrived]

/-- A waiting worker recovers the client and the body of a request. -/
theorem poll_requestWire (plainClient : Plain client) (plainBody : Plain body)
    {env : WorkerEnvironment} {process : MessageWorker} {input : PollInput}
    (polling : process.phase = .polling)
    (arrived : input.frames = some (requestWire client body)) :
    ∃ next request, process.step env (.poll input) = some next ∧ next.replyTo = client ∧
      next.phase = .serving request ∧ request.body = some body := by
  have command : cStr mdpwRequest = mdpwRequest := by decide
  have received := @MessageWorker.receive_eq env process input mdpwRequest
    [client, [], body] _ (recv_requestWire plainClient plainBody)
  have stepped : process.step env (.poll input) = MessageWorker.obey env
      { process with liveness := env.heartbeatLiveness } input mdpwRequest
        ⟨[client, [], body]⟩ := by
    rw [step_poll polling arrived, received, command]
  rw [MessageWorker.obey, if_pos rfl, Zmsg.unwrap_delimited, plainClient.cStr_eq] at stepped
  exact ⟨_, _, stepped, rfl, rfl, rfl⟩

end Request

/-- A waiting worker takes every other command of the broker. -/
theorem poll_commandWire {command : ByteString}
    (isCommand : command ∈ [mdpwHeartbeat, mdpwDisconnect])
    {env : WorkerEnvironment} {process : MessageWorker} {input : PollInput}
    (polling : process.phase = .polling) (arrived : input.frames = some (commandWire command)) :
    (process.step env (.poll input)).isSome := by
  have same : Zmsg.recv (commandWire command) = ⟨[] :: mdpwWorker :: command :: []⟩ := by
    refine Zmsg.recv_eq_self fun frame member => ?_
    simp only [commandWire, List.mem_cons, List.not_mem_nil, or_false] at member isCommand
    rcases member with rfl | rfl | rfl
    · decide
    · decide
    · rcases isCommand with rfl | rfl <;> decide
  have received := @MessageWorker.receive_eq env process input command [] _ same
  rw [step_poll polling arrived, received]
  exact MessageWorker.obey_isSome _ _ _

theorem workerMessage_command_send {command : ByteString}
    (isCommand : command ∈ [mdpwHeartbeat, mdpwDisconnect]) {worker : Worker}
    (peer : Plain worker.identity) :
    (MessageBroker.workerMessage worker command [] none).send =
      some (worker.identity :: commandWire command) := by
  have cut : cStr command = command := by
    simp only [List.mem_cons, List.not_mem_nil, or_false] at isCommand
    rcases isCommand with rfl | rfl <;> decide
  rw [MessageBroker.workerMessage_eq, peer.cStr_eq, cut]
  refine Zmsg.send_eq_self fun part member => ?_
  simp only [Option.getD_none, Zmsg.empty, List.mem_cons, List.not_mem_nil, or_false]
    at member isCommand
  rcases member with rfl | rfl | rfl | rfl
  · exact peer.notUuid
  · decide
  · decide
  · rcases isCommand with rfl | rfl <;> decide

/-! ## Replies -/

/-- The frames of a reply, as the worker sends them. -/
def replyWire (client body : ByteString) : List ByteString :=
  [[], mdpwWorker, mdpwReply, client, [], body]

/-- The frames of a reply, as the broker sends them to the client. -/
def clientWire (client body : ByteString) : List ByteString :=
  [client, [], mdpcClient, [], body]

section Reply

variable {client peer body : ByteString}

/-- The parts of a reply. -/
theorem brokerMessage_reply (client body : ByteString) :
    MessageWorker.brokerMessage mdpwReply [] (some (MessageWorker.replyMessage body client)) =
      ⟨replyWire (cStr client) (cStr body)⟩ := by
  have command : cStr mdpwReply = mdpwReply := by decide
  have version : cStr mdpwWorker = mdpwWorker := by decide
  simp [MessageWorker.brokerMessage, MessageWorker.replyMessage, Zmsg.emplaceBack, Zmsg.empty,
    Zmsg.pushFront, Zmsg.wrap, command, version, replyWire]

theorem replyMessage_send (plainClient : Plain client) (plainBody : Plain body) :
    (MessageWorker.brokerMessage mdpwReply []
      (some (MessageWorker.replyMessage body client))).send = some (replyWire client body) := by
  rw [brokerMessage_reply, plainClient.cStr_eq, plainBody.cStr_eq]
  refine Zmsg.send_eq_self fun part member => ?_
  simp only [replyWire, List.mem_cons, List.not_mem_nil, or_false] at member
  rcases member with rfl | rfl | rfl | rfl | rfl | rfl
  · decide
  · decide
  · decide
  · exact plainClient.notUuid
  · decide
  · exact plainBody.notUuid

theorem recv_replyWire (plainPeer : Plain peer) (plainClient : Plain client)
    (plainBody : Plain body) :
    (Zmsg.recv (peer :: replyWire client body)).partData =
      peer :: [] :: mdpwWorker :: mdpwReply :: [client, [], body] := by
  have same : Zmsg.recv (peer :: replyWire client body) = ⟨peer :: replyWire client body⟩ := by
    refine Zmsg.recv_eq_self fun frame member => ?_
    simp only [replyWire, List.mem_cons, List.not_mem_nil, or_false] at member
    rcases member with rfl | rfl | rfl | rfl | rfl | rfl | rfl
    · exact plainPeer.nulFree
    · decide
    · decide
    · decide
    · exact plainClient.nulFree
    · decide
    · exact plainBody.nulFree
  rw [same]
  rfl

theorem clientReply_send (plainClient : Plain client) (plainBody : Plain body) :
    (MessageBroker.clientReply client ⟨[body]⟩).send = some (clientWire client body) := by
  have version : cStr mdpcClient = mdpcClient := by decide
  have shape : MessageBroker.clientReply client ⟨[body]⟩ = ⟨clientWire client body⟩ := by
    simp [MessageBroker.clientReply, Zmsg.wrap, Zmsg.pushFront, plainClient.cStr_eq, version,
      clientWire]
  rw [shape]
  refine Zmsg.send_eq_self fun part member => ?_
  simp only [clientWire, List.mem_cons, List.not_mem_nil, or_false] at member
  rcases member with rfl | rfl | rfl | rfl | rfl
  · exact plainClient.notUuid
  · decide
  · decide
  · decide
  · exact plainBody.notUuid

/-- A registered worker always gets to wait. -/
theorem workerWaiting_isSome {broker : MessageBroker} {clock : WorkerClock} {worker : Worker}
    (registered : (broker.workers.get worker.identity).isSome) :
    (broker.workerWaiting clock worker).isSome := by
  have modified : ((broker.workers.setIdle worker.identity).1.updateExpiration clock.update
      worker.identity).isSome := by
    rw [WorkerContainer.updateExpiration, WorkerContainer.modifyById_isSome]
    simpa using registered
  obtain ⟨updated, isUpdated⟩ := Option.isSome_iff_exists.mp modified
  simp [MessageBroker.workerWaiting, isUpdated]

/-- The broker forwards the reply of a registered worker to its client. -/
theorem handle_replyWire (plainPeer : Plain peer) (plainClient : Plain client)
    (plainBody : Plain body) {env : Environment} {broker : MessageBroker}
    (registered : (broker.workers.get peer).isSome) (clock : WorkerClock) :
    ∃ next call, broker.handle env (.worker (peer :: replyWire client body) clock) =
        some (next, call) ∧
      next.journal = broker.journal ++ [.command peer mdpwReply,
        .sent .external (MessageBroker.clientReply client ⟨[body]⟩) broker.workers] := by
  obtain ⟨worker, found⟩ := Option.isSome_iff_exists.mp registered
  have hasId := WorkerContainer.identity_of_get found
  have command : cStr mdpwReply = mdpwReply := by decide
  have version : cStr mdpwWorker = mdpwWorker := by decide
  have unwrapped : Zmsg.unwrap ⟨[client, [], body]⟩ = (client, ⟨[body]⟩) := by
    rw [Zmsg.unwrap_delimited, plainClient.cStr_eq]
  have handled : broker.handle env (.worker (peer :: replyWire client body) clock) =
      (broker.record (.command peer mdpwReply)).forwardReply clock worker
        ⟨[client, [], body]⟩ := by
    have parts := recv_replyWire plainPeer plainClient plainBody
    rw [MessageBroker.handle, ← version, MessageBroker.handleMessage_eq parts,
      plainPeer.cStr_eq,
      MessageBroker.workerProcess_registered plainPeer.nonempty found, command]
    rfl
  have sends := clientReply_send plainClient plainBody
  have forwards : ((broker.record (.command peer mdpwReply)).forwardReply clock worker
      ⟨[client, [], body]⟩).isSome := by
    simp only [MessageBroker.forwardReply, unwrapped, plainClient.nonempty, if_false,
      MessageBroker.sendOn, sends, Option.bind_eq_bind, Option.bind_some, Option.pure_def]
    apply workerWaiting_isSome
    rw [hasId]
    exact registered
  obtain ⟨⟨next, call⟩, forwarded⟩ := Option.isSome_iff_exists.mp forwards
  have journal := (MessageBroker.forwardReply_spec forwarded).2.2.2.2.2
  rw [unwrapped, if_neg plainClient.nonempty] at journal
  refine ⟨next, call, handled.trans forwarded, ?_⟩
  rw [journal, MessageBroker.record]
  exact List.append_assoc _ _ _

end Reply

/-! ## End to end -/

/-- States that a worker process can be in. -/
def Reached (env : WorkerEnvironment) (process : MessageWorker) : Prop :=
  ∃ identity connect handle first events,
    MessageWorker.start env identity connect handle = some first ∧
      Run (MessageWorker.step env) Unguarded first events process

/-- A step that sends responses to one client at most. -/
def RespondsTo (env : WorkerEnvironment) (process next : MessageWorker) (client : ByteString) :
    Prop :=
  ∃ sent, next.journal = process.journal ++ sent ∧
    ∀ entry ∈ sent, MessageWorker.Sent.RepliesTo env entry process.identity client

/-- The way of the requests of a client `c` through a worker `w`, and back.  The
broker reads and prints bodies with the library of `env`, the worker with that of
`workerEnv`. -/
structure EnvelopesAgree (env : Environment) (workerEnv : WorkerEnvironment)
    (c w : ByteString) : Prop where
  /-- What `worker_send` emits for a request is what the worker recovers. -/
  request : ∀ (extraction : Extraction) (worker : Worker), worker.identity = w →
    ∃ wire, (MessageBroker.workerMessage worker mdpwRequest []
        (some (MessageBroker.workerRequest env extraction c))).send = some (w :: wire) ∧
      ∀ (process : MessageWorker) (input : PollInput), process.phase = .polling →
        input.frames = some wire → ∃ next request,
          process.step workerEnv (.poll input) = some next ∧ next.replyTo = c ∧
          next.phase = .serving request ∧ request.body =
            some (env.library.toString (some 2)
              (RawMsg.toValue ⟨extraction.hdr, extraction.unknown⟩))
  /-- The other commands of the broker pass the assertions of `recv`. -/
  commands : ∀ command ∈ [mdpwHeartbeat, mdpwDisconnect], ∀ worker : Worker,
    worker.identity = w → ∃ wire,
      (MessageBroker.workerMessage worker command [] none).send = some (w :: wire) ∧
      ∀ (process : MessageWorker) (input : PollInput), process.phase = .polling →
        input.frames = some wire → (process.step workerEnv (.poll input)).isSome
  /-- Serving a request of `c` answers `c` only, and what it postpones is for `c`. -/
  immediate : ∀ (process next : MessageWorker) input, Reached workerEnv process →
    process.replyTo = c →
    process.step workerEnv (.serve input) = some next →
      RespondsTo workerEnv process next c ∧
        ∀ pa ∈ next.postponedActions.actions,
          pa ∈ process.postponedActions.actions ∨ pa.replyTo = c
  /-- A postponed action of `c` is answered to `c` only. -/
  later : ∀ (process next : MessageWorker) input top, process.postponedActions.top = some top →
    top.replyTo = c → process.step workerEnv (.retry input) = some next →
      RespondsTo workerEnv process next c
  /-- What is postponed stays with its client. -/
  owned : ∀ (process next : MessageWorker) event, process.step workerEnv event = some next →
    (∀ input, event ≠ .serve input) → ∀ pa ∈ next.postponedActions.actions,
      ∃ old ∈ process.postponedActions.actions, pa.replyTo = old.replyTo
  /-- The broker forwards each response to `c`, as long as it knows the worker, and
  sends nothing else to a client. -/
  forwarded : ∀ sent : Sent, MessageWorker.Sent.RepliesTo workerEnv sent w c →
    ∃ wire body, sent.msg.send = some wire ∧ MessageWorker.IsResponse workerEnv body ∧
      sent.msg = MessageWorker.brokerMessage mdpwReply []
        (some (MessageWorker.replyMessage body c)) ∧
      ∀ (broker : MessageBroker) (clock : WorkerClock), (broker.workers.get w).isSome →
        ∃ next call msg, broker.handle env (.worker (w :: wire) clock) = some (next, call) ∧
          msg.send = some [c, [], mdpcClient, [], body] ∧
          next.journal = broker.journal ++
            [.command w mdpwReply, .sent .external msg broker.workers] ∧
          ∀ last, broker.step env (.worker (w :: wire) clock) = some last →
            ∃ requests, last.journal = next.journal ++ requests ∧
              ∀ entry ∈ requests, ∃ msg workers, entry = .sent .internal msg workers

/-- In every state of a worker its pending reply is a response. -/
theorem Reached.printed {env : WorkerEnvironment} {process : MessageWorker}
    (reached : Reached env process) : process.PendingPrinted env := by
  obtain ⟨identity, connect, handle, first, events, started, run⟩ := reached
  apply run.invariant (MessageWorker.PendingPrinted env)
  · obtain ⟨heartbeatAt, now, rfl⟩ := MessageWorker.start_spec started
    nofun
  · intro state event next printed _ stepped
    exact MessageWorker.step_printed printed stepped

/-- The body of the request that the broker makes of a client's actions. -/
theorem workerRequest_eq {env : Environment} (prints : env.library.Prints)
    {c : ByteString} (client : Plain c) (extraction : Extraction) :
    MessageBroker.workerRequest env extraction c = ⟨[c, [], env.library.toString (some 2)
      (RawMsg.toValue ⟨extraction.hdr, extraction.unknown⟩)]⟩ := by
  have body := plain_of_prints prints (some 2)
    (RawMsg.toValue ⟨extraction.hdr, extraction.unknown⟩)
  simp [MessageBroker.workerRequest, Zmsg.wrap, Zmsg.pushFront, Zmsg.bodySet,
    Zmsg.emplaceBack, Zmsg.empty, client.cStr_eq, body.cStr_eq]

/-- Behind the handler of a worker's message, a step only sends to workers. -/
theorem step_journal {env : Environment} {broker next last : MessageBroker}
    {event : BrokerEvent} {call : Option DispatchCall}
    (handled : broker.handle env event = some (next, call))
    (stepped : broker.step env event = some last) :
    ∃ requests, last.journal = next.journal ++ requests ∧
      ∀ entry ∈ requests, ∃ msg workers, entry = .sent .internal msg workers := by
  obtain ⟨handled', call', isHandled, rest⟩ := MessageBroker.step_cases stepped
  rw [handled] at isHandled
  obtain ⟨rfl, rfl⟩ := Prod.mk.inj (Option.some.inj isHandled)
  rcases rest with ⟨_, rfl⟩ | ⟨made, _, dispatched⟩
  · exact ⟨[], by rw [List.append_nil], fun _ member => absurd member List.not_mem_nil⟩
  · obtain ⟨requests, journal, areRequests⟩ := MessageBroker.dispatch_journal dispatched
    refine ⟨requests, journal, ?_⟩
    intro entry member
    obtain ⟨worker, payload, workers, rfl⟩ := areRequests entry member
    exact ⟨_, _, rfl⟩

/-- Envelopes agree between the broker and a worker that it knows. -/
theorem envelopes_agree {env : Environment} {workerEnv : WorkerEnvironment} {c w : ByteString}
    (prints : env.library.Prints) (workerPrints : workerEnv.library.Prints)
    (client : Plain c) (peer : Plain w) : EnvelopesAgree env workerEnv c w where
  request := by
    intro extraction worker hasId
    have body := plain_of_prints prints (some 2)
      (RawMsg.toValue ⟨extraction.hdr, extraction.unknown⟩)
    rw [workerRequest_eq prints client]
    generalize env.library.toString (some 2)
      (RawMsg.toValue ⟨extraction.hdr, extraction.unknown⟩) = printed at body ⊢
    refine ⟨requestWire c printed, ?_, fun process input polling arrived => ?_⟩
    · rw [workerMessage_request_send (hasId ▸ peer) client body, hasId]
    · exact poll_requestWire client body polling arrived
  commands := by
    intro command isCommand worker hasId
    refine ⟨commandWire command, ?_, fun process input polling arrived => ?_⟩
    · rw [workerMessage_command_send isCommand (hasId ▸ peer), hasId]
    · exact poll_commandWire isCommand polling arrived
  immediate := by
    intro process next input reached isClient stepped
    rcases MessageWorker.step_cases stepped with ⟨_, _, isEvent, _⟩ | ⟨_, isEvent, _⟩ |
      ⟨served, request, isEvent, _, isServed⟩
    · contradiction
    · contradiction
    · obtain ⟨_, sends, postpones⟩ := MessageWorker.serve_sends reached.printed isServed
      rw [isClient] at sends postpones
      exact ⟨sends, postpones⟩
  later := by
    intro process next input top isTop isClient stepped
    rcases MessageWorker.step_cases stepped with ⟨retried, now, isEvent, _, handled⟩ |
      ⟨_, isEvent, _⟩ | ⟨_, _, isEvent, _⟩
    · rw [MessageWorker.handlePostponedAction, isTop] at handled
      dsimp only at handled
      split at handled
      · have sends := (MessageWorker.retry_sends handled).2.1
        rw [isClient] at sends
        exact sends
      · obtain rfl := Option.some.inj handled
        exact ⟨[], by rw [List.append_nil], fun _ member => absurd member List.not_mem_nil⟩
    · contradiction
    · contradiction
  owned := by
    intro process next event stepped notServe pa member
    rcases MessageWorker.step_cases stepped with ⟨input, now, _, _, handled⟩ |
      ⟨input, _, _, polled⟩ | ⟨input, _, isEvent, _⟩
    · rcases MessageWorker.handlePostponedAction_cases handled with rfl | ⟨top, _, retried⟩
      · exact ⟨pa, member, rfl⟩
      · exact (MessageWorker.retry_sends retried).2.2 pa member
    · rw [(MessageWorker.poll_spec polled).postponedActions] at member
      exact ⟨pa, member, rfl⟩
    · exact absurd isEvent (notServe input)
  forwarded := by
    intro sent replies
    obtain ⟨_, body, response, isMsg⟩ := replies
    have plain := plain_of_isResponse workerPrints response
    refine ⟨replyWire c body, body, ?_, response, isMsg, fun broker clock registered => ?_⟩
    · rw [isMsg]
      exact replyMessage_send client plain
    · obtain ⟨next, call, handled, journal⟩ :=
        @handle_replyWire c w body peer client plain env broker registered clock
      exact ⟨next, call, _, handled, clientReply_send client plain, journal,
        fun last stepped => step_journal handled stepped⟩

/-! ## A late reply -/

/-- A client asks for two actions, in the body that the broker makes of them. -/
def lateBody : Value := sampleBody [pingAction "1", pingAction "2"]

def lateEnv : Environment := sampleEnv [lateBody]

/-- A worker that can read the indented text that the broker sends. -/
def lateWorkerEnv : WorkerEnvironment :=
  { MessageWorker.sampleWorkerEnv [] with
    library := .ofTexts [(lateBody.print (some 2) 0, lateBody)] }

theorem envelopes_agree_late : EnvelopesAgree lateEnv lateWorkerEnv (text "c") (text "w1") :=
  envelopes_agree (ofTexts_prints _) (ofTexts_prints _) ⟨by decide, by decide, by decide⟩
    ⟨by decide, by decide, by decide⟩

/-- The worker postpones the second action and answers it later. -/
def lateWorkerEvents : List WorkerEvent :=
  [.retry MessageWorker.postpones,
    .poll ⟨some (requestWire (text "c") (lateBody.print (some 2) 0)), text "w2", 0, 0, 0⟩,
    .serve ⟨fun position => if position = 0 then MessageWorker.succeeds
      else MessageWorker.postpones, 5000⟩,
    .retry MessageWorker.succeeds]

/-- The messages of the worker, as the broker receives them. -/
def lateWires : List (List ByteString) :=
  (((MessageWorker.start lateWorkerEnv (text "w1") 0 0).bind fun first =>
    exec (MessageWorker.step lateWorkerEnv) Unguarded first lateWorkerEvents).map
      fun worker => worker.journal.filterMap fun sent => sent.msg.send).getD []

/-- The broker gets them, and its timer ticks in front of the last one. -/
def lateEvents : List BrokerEvent :=
  [.worker (text "w1" :: lateWires.getD 0 []) ⟨0, 0, 0⟩, clientSends "c" lateBody 0,
    .worker (text "w1" :: lateWires.getD 1 []) ⟨10, 10, 10⟩, .timer 5000000000,
    .worker (text "w1" :: lateWires.getD 2 []) ⟨5000000001, 5000000001, 5000000001⟩]

/-- What the broker sends on a socket. -/
def sentOn (socket : Socket) (journal : List Traffic) : List (List ByteString) :=
  journal.filterMap fun entry =>
    match entry with
    | .sent other msg _ => if other = socket then msg.send else none
    | _ => none

/-- The worker answers both actions of the client, but the broker, which has purged
the worker in between, forwards one reply only. -/
theorem lateReply_dropped :
    (∃ first worker, MessageWorker.start lateWorkerEnv (text "w1") 0 0 = some first ∧
      Run (MessageWorker.step lateWorkerEnv) Unguarded first lateWorkerEvents worker ∧
      (worker.journal.map fun sent => sent.answered.map Answered.client) =
        [none, some (text "c"), some (text "c")]) ∧
    ∃ broker, Run (MessageBroker.step lateEnv) Unguarded sampleBroker lateEvents broker ∧
      sentOn .internal (broker.journal.filter fun entry => entry.request.isSome) =
        [text "w1" :: requestWire (text "c") (lateBody.print (some 2) 0)] ∧
      (sentOn .external broker.journal).length = 1 := by
  constructor
  · have executes : (((MessageWorker.start lateWorkerEnv (text "w1") 0 0).bind fun first =>
        exec (MessageWorker.step lateWorkerEnv) Unguarded first lateWorkerEvents).any
          fun worker => (worker.journal.map fun sent => sent.answered.map Answered.client) =
            [none, some (text "c"), some (text "c")]) = true := by decide +kernel
    obtain ⟨worker, executed, both⟩ := (Option.any_eq_true _ _).mp executes
    obtain ⟨first, started, executed⟩ := Option.bind_eq_some_iff.mp executed
    exact ⟨first, worker, started, .of_exec executed, of_decide_eq_true both⟩
  · obtain ⟨broker, run, effect⟩ := Run.exists_of_exec (fun broker : MessageBroker => decide
      (sentOn .internal (broker.journal.filter fun entry => entry.request.isSome) =
          [text "w1" :: requestWire (text "c") (lateBody.print (some 2) 0)] ∧
        (sentOn .external broker.journal).length = 1))
      (by decide +kernel : (exec (MessageBroker.step lateEnv) Unguarded sampleBroker
        lateEvents).any _ = true)
    exact ⟨broker, run, of_decide_eq_true effect⟩

end Cdcm.System
