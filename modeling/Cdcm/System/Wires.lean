import Cdcm.System.Envelope
import Cdcm.System.Network

/-!
# Messages on their way

How the messages of a worker and of the broker are read at the other end of their channels:
which of them are requests, which are replies, and which make the broker know a worker.
-/

namespace Cdcm.System

open Json Protocol Zmq Backend Frontend SessionsCache Machine

instance (bytes : ByteString) : Decidable (Plain bytes) :=
  decidable_of_iff (bytes ≠ [] ∧ 0 ∉ bytes ∧ ¬ LooksLikeUuid bytes)
    ⟨fun ⟨nonempty, nulFree, notUuid⟩ => ⟨nonempty, nulFree, notUuid⟩,
      fun plain => ⟨plain.nonempty, plain.nulFree, plain.notUuid⟩⟩

/-- The requests among the messages to a worker. -/
def requestsIn (wires : List (List ByteString)) : Nat :=
  wires.countP fun wire => (requestOf wire).isSome

/-- A message of a worker is a reply, as the broker reads it. -/
def isReply (peer : ByteString) (wire : List ByteString) : Bool :=
  (workerCommand (peer :: wire)).any fun read => read.command = mdpwReply

/-- The replies among the messages of a worker. -/
def repliesIn (peer : ByteString) (wires : List (List ByteString)) : Nat :=
  wires.countP (isReply peer)

/-- A message of a worker that connects. -/
def Joins (peer : ByteString) (wire : List ByteString) : Prop :=
  ∃ client, workerCommand (peer :: wire) = some ⟨peer, mdpwReady, client⟩

/-- A message of a worker that is connected: a heartbeat, or a reply to some client. -/
def Speaks (peer : ByteString) (wire : List ByteString) : Prop :=
  ∃ client, workerCommand (peer :: wire) = some ⟨peer, mdpwHeartbeat, client⟩ ∨
    client ≠ [] ∧ workerCommand (peer :: wire) = some ⟨peer, mdpwReply, client⟩

/-- The messages that are sent. -/
def wiresOf (sents : List Sent) : List (List ByteString) :=
  sents.filterMap fun sent => sent.msg.send

section Wires

variable {peer : ByteString}

@[simp] theorem requestsIn_nil : requestsIn [] = 0 := rfl

@[simp] theorem requestsIn_append (front back : List (List ByteString)) :
    requestsIn (front ++ back) = requestsIn front + requestsIn back := List.countP_append

@[simp] theorem repliesIn_nil : repliesIn peer [] = 0 := rfl

@[simp] theorem repliesIn_append (front back : List (List ByteString)) :
    repliesIn peer (front ++ back) = repliesIn peer front + repliesIn peer back :=
  List.countP_append

@[simp] theorem repliesIn_cons (wire : List ByteString) (rest : List (List ByteString)) :
    repliesIn peer (wire :: rest) = repliesIn peer rest + if isReply peer wire then 1 else 0 :=
  List.countP_cons

theorem isReply_eq {wire : List ByteString} {command client : ByteString}
    (reads : workerCommand (peer :: wire) = some ⟨peer, command, client⟩) :
    isReply peer wire = decide (command = mdpwReply) := by
  rw [isReply, reads, Option.any_some]

/-- A command without payload is read as it is sent. -/
theorem workerCommand_commandWire (plain : Plain peer) {command : ByteString}
    (isCommand : command ∈ [mdpwReady, mdpwHeartbeat]) :
    workerCommand (peer :: [[], mdpwWorker, command]) = some ⟨peer, command, []⟩ := by
  have same : Zmsg.recv [peer, [], mdpwWorker, command] = ⟨[peer, [], mdpwWorker, command]⟩ := by
    refine Zmsg.recv_eq_self fun frame member => ?_
    simp only [List.mem_cons, List.not_mem_nil, or_false] at member isCommand
    rcases member with rfl | rfl | rfl | rfl
    · exact plain.nulFree
    · decide
    · decide
    · rcases isCommand with rfl | rfl <;> decide
  have version : cStr mdpwWorker = mdpwWorker := by decide
  have cut : cStr command = command := by
    simp only [List.mem_cons, List.not_mem_nil, or_false] at isCommand
    rcases isCommand with rfl | rfl <;> decide
  simp only [workerCommand, same, version, if_true, plain.cStr_eq, cut]
  rfl

/-- A message of a worker without results goes out. -/
theorem send_bare {command : ByteString} (isCommand : command ∈ [mdpwReady, mdpwHeartbeat])
    (identity : ByteString) :
    (MessageWorker.bare identity command).msg.send = some [[], mdpwWorker, command] := by
  simp only [List.mem_cons, List.not_mem_nil, or_false] at isCommand
  rcases isCommand with rfl | rfl <;> rfl

/-- Heartbeats are read as such. -/
theorem beats_speak (plain : Plain peer) {beats : List Sent}
    (areBeats : ∀ sent ∈ beats, sent = MessageWorker.bare peer mdpwHeartbeat) :
    (∀ sent ∈ beats, sent.identity = peer) ∧
      (∀ wire ∈ wiresOf beats, Speaks peer wire) ∧ repliesIn peer (wiresOf beats) = 0 := by
  have reads := @workerCommand_commandWire peer plain mdpwHeartbeat (by simp)
  have wires : ∀ wire ∈ wiresOf beats, wire = [[], mdpwWorker, mdpwHeartbeat] := by
    intro wire member
    obtain ⟨sent, isSent, sends⟩ := List.mem_filterMap.mp member
    rw [areBeats sent isSent, send_bare (by simp)] at sends
    exact (Option.some.inj sends).symm
  refine ⟨fun sent member => areBeats sent member ▸ rfl, fun wire member => ?_,
    List.countP_eq_zero.mpr fun wire member => ?_⟩
  · rw [wires wire member]
    exact ⟨[], .inl reads⟩
  · rw [wires wire member, isReply_eq reads]
    decide

/-- A client that a part names is named by its frame, too. -/
theorem recvPart_nonempty {part frame : ByteString} (nonempty : part ≠ []) (nulFree : 0 ∉ part)
    (sends : sendPart part = some frame) : cStr (recvPart frame) ≠ [] := by
  rw [sendPart] at sends
  split at sends
  next =>
    rw [recvPart, if_pos (isUuidFrame_of_decodeUuid sends)]
    exact List.cons_ne_nil _ _
  next =>
    obtain rfl := Option.some.inj sends
    rwa [recvPart_of_nulFree nulFree, cStr_of_zero_not_mem nulFree]

/-- A reply to a client is read as one. -/
theorem returns_speaks {env : WorkerEnvironment} {sent : Sent} (plain : Plain peer)
    (returns : sent.Returns env peer) :
    ∃ wire, sent.msg.send = some wire ∧ Speaks peer wire ∧ isReply peer wire = true := by
  obtain ⟨client, nonempty, nulFree, _, body, _, isMsg⟩ := returns
  rw [brokerMessage_reply, cStr_of_zero_not_mem nulFree] at isMsg
  have sends : sent.msg.send.isSome := by
    refine Zmsg.send_isSome fun part member => ?_
    simp only [isMsg, replyWire, List.mem_cons, List.not_mem_nil, or_false] at member
    rcases member with rfl | rfl | rfl | rfl | rfl | rfl
    · decide
    · decide
    · decide
    · exact nulFree
    · decide
    · exact zero_not_mem_cStr _
  obtain ⟨wire, sent⟩ := Option.isSome_iff_exists.mp sends
  have fixed (part : ByteString) (isPart : part ∈ [[], mdpwWorker, mdpwReply]) :
      ¬ LooksLikeUuid part := by
    simp only [List.mem_cons, List.not_mem_nil, or_false] at isPart
    rcases isPart with rfl | rfl | rfl <;> decide
  have parts := sent
  rw [isMsg, replyWire, Zmsg.send_cons_of_not_uuid (fixed [] (by simp))] at parts
  obtain ⟨others, parts, rfl⟩ := parts
  rw [Zmsg.send_cons_of_not_uuid (fixed mdpwWorker (by simp))] at parts
  obtain ⟨others, parts, rfl⟩ := parts
  rw [Zmsg.send_cons_of_not_uuid (fixed mdpwReply (by simp))] at parts
  obtain ⟨others, parts, rfl⟩ := parts
  obtain ⟨frame, others, framed, _, rfl⟩ := Zmsg.send_cons.mp parts
  have version : cStr (recvPart mdpwWorker) = mdpwWorker := by decide
  have command : cStr (recvPart mdpwReply) = mdpwReply := by decide
  have reads : workerCommand (peer :: [] :: mdpwWorker :: mdpwReply :: frame :: others) =
      some ⟨peer, mdpwReply, cStr (recvPart frame)⟩ := by
    simp only [workerCommand, Zmsg.partData_recv, List.map_cons, version, command, if_true,
      plain.recvPart_eq, plain.cStr_eq]
    rfl
  refine ⟨_, sent, ⟨_, .inr ⟨recvPart_nonempty nonempty nulFree framed, reads⟩⟩, ?_⟩
  rw [isReply_eq reads]
  rfl

end Wires

/-! ## Channels -/

section Channels

variable {channels : Channels} {peer : ByteString}

/-- What a worker sends stands on its channel behind the rest. -/
theorem foldl_post {sents : List Sent} (own : ∀ sent ∈ sents, sent.identity = peer)
    (channels : Channels) :
    sents.foldl Channels.post channels =
      Function.update channels peer (channels peer ++ wiresOf sents) := by
  induction sents generalizing channels with
  | nil => simp [wiresOf]
  | cons head rest ih =>
      have later := fun sent member => own sent (List.mem_cons_of_mem head member)
      rw [List.foldl_cons, ih later, Channels.post, own head List.mem_cons_self]
      cases sends : head.msg.send with
      | none => simp [wiresOf, sends]
      | some wire => simp [wiresOf, sends, Channels.push]

/-- A message of the broker that carries no request adds none to a channel. -/
theorem requestsIn_route {entry : Traffic} (tells : entry.Tells) :
    requestsIn (channels.route entry peer) = requestsIn (channels peer) := by
  rw [Channels.route]
  cases isRouted : routed entry with
  | none => rfl
  | some found =>
      obtain ⟨target, wire⟩ := found
      have quiet : requestOf wire = none := by
        cases entry with
        | command | handed => contradiction
        | sent socket msg workers =>
            cases socket with
            | external => contradiction
            | internal =>
                obtain ⟨worker, command, isCommand, rfl⟩ := tells msg workers rfl
                rw [routed] at isRouted
                split at isRouted
                next sends =>
                  obtain ⟨rfl, rfl⟩ := Prod.mk.inj (Option.some.inj isRouted)
                  rw [MessageBroker.workerMessage_eq] at sends
                  obtain ⟨_, others, _, rest, same⟩ := Zmsg.send_cons.mp sends
                  obtain rfl := (List.cons.inj same).2
                  simp only [List.mem_cons, List.not_mem_nil, or_false] at isCommand
                  rcases isCommand with rfl | rfl
                  · obtain rfl : [[], mdpwWorker, mdpwHeartbeat] = _ := Option.some.inj rest
                    decide
                  · obtain rfl : [[], mdpwWorker, mdpwDisconnect] = _ := Option.some.inj rest
                    decide
                next => contradiction
      have none : requestsIn [wire] = 0 := by simp [requestsIn, quiet]
      simp only [Channels.push]
      by_cases same : peer = target
      · rw [same, Function.update_self, requestsIn_append, none, add_zero]
      · rw [Function.update_of_ne same]

theorem requestsIn_foldl_route {entries : List Traffic}
    (tells : ∀ entry ∈ entries, entry.Tells) (channels : Channels) :
    requestsIn (entries.foldl Channels.route channels peer) = requestsIn (channels peer) := by
  induction entries generalizing channels with
  | nil => rfl
  | cons head rest ih =>
      rw [List.foldl_cons, ih fun entry member => tells entry (List.mem_cons_of_mem _ member)]
      exact requestsIn_route (tells head List.mem_cons_self)

/-- A request of the broker stands on the channel of its worker. -/
theorem requestsIn_route_request {worker : Worker} {payload : Zmsg}
    {workers : WorkerContainer} (plain : Plain worker.identity)
    (framed : (MessageBroker.workerMessage worker mdpwRequest [] (some payload)).send.isSome) :
    requestsIn (channels.route (.sent .internal
      (MessageBroker.workerMessage worker mdpwRequest [] (some payload)) workers) peer) =
        requestsIn (channels peer) + if peer = worker.identity then 1 else 0 := by
  obtain ⟨frames, sends⟩ := Option.isSome_iff_exists.mp framed
  have parts := sends
  rw [MessageBroker.workerMessage_eq, plain.cStr_eq,
    Zmsg.send_cons_of_not_uuid plain.notUuid] at parts
  obtain ⟨others, parts, rfl⟩ := parts
  rw [Zmsg.send_cons_of_not_uuid (by decide)] at parts
  obtain ⟨others, parts, rfl⟩ := parts
  rw [Zmsg.send_cons_of_not_uuid (by decide)] at parts
  obtain ⟨others, parts, rfl⟩ := parts
  rw [Zmsg.send_cons_of_not_uuid (by decide)] at parts
  obtain ⟨others, parts, rfl⟩ := parts
  have isRequest : (requestOf ([] :: mdpwWorker :: cStr mdpwRequest :: others)).isSome := by
    have command : cStr (recvPart (cStr mdpwRequest)) = mdpwRequest := by decide
    simp [requestOf, command]
  have one : requestsIn [[] :: mdpwWorker :: cStr mdpwRequest :: others] = 1 := by
    simp [requestsIn, isRequest]
  simp only [Channels.route, routed, sends, Channels.push]
  by_cases same : peer = worker.identity
  · rw [if_pos same, same, Function.update_self, requestsIn_append, one]
  · rw [if_neg same, Function.update_of_ne same, add_zero]

end Channels

end Cdcm.System
