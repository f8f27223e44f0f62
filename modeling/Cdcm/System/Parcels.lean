import Cdcm.Backend.Conservation
import Cdcm.Frontend.Forwarding
import Cdcm.Lib.Ledger
import Cdcm.System.Agreement

/-!
# What the messages on their way are for

The actions that the messages between the broker and its workers carry, seen from one
client: a request carries the actions that its worker reads, and a reply those that it
answers.  The address of a client with a plain name arrives at the other end as no other
one, so that nothing that is for one client is taken for something of another.
-/

namespace Cdcm.Backend

/-- The actions that the results of a reply are for. -/
def Answered.asked (answered : Answered) : Multiset Asked :=
  Answer.asked answered.client answered.hdr answered.answers

end Cdcm.Backend

namespace Cdcm.System

open Json Protocol Zmq Backend Frontend SessionsCache Machine

/-! ## The actions of one client -/

/-- The actions that one client has asked for. -/
def forClient (client : ByteString) (asked : Multiset Asked) : Multiset Asked :=
  asked.filter fun action => action.client = client

/-- What a request with its client asks for, if it is the one. -/
def askedFor (library : Library) (client : ByteString) (request : ByteString × Zmsg) :
    Multiset Asked :=
  if request.1 = client then askedBy library client request.2 else 0

/-- What the results of a message answer for one client. -/
def answeredFor (client : ByteString) (answered : Option Answered) : Multiset Asked :=
  answered.elim 0 fun answered => forClient client answered.asked

section Client

variable {client : ByteString} {library : Library}

@[simp] theorem forClient_zero : forClient client 0 = 0 := Multiset.filter_zero _

@[simp] theorem forClient_add (first second : Multiset Asked) :
    forClient client (first + second) = forClient client first + forClient client second :=
  Multiset.filter_add _ _ _

/-- Actions of one client are all for it. -/
theorem forClient_of_client {asked : Multiset Asked} {other : ByteString}
    (all : ∀ action ∈ asked, action.client = other) :
    forClient client asked = if other = client then asked else 0 := by
  split
  next same => exact Multiset.filter_eq_self.mpr fun action member => same ▸ all action member
  next different =>
    exact Multiset.filter_eq_nil.mpr fun action member => all action member ▸ different

@[simp] theorem forClient_askedBy (other : ByteString) (request : Zmsg) :
    forClient client (askedBy library other request) =
      askedFor library client (other, request) := by
  rw [@forClient_of_client client _ other, askedFor]
  · by_cases same : other = client
    · rw [if_pos same, if_pos same, same]
    · rw [if_neg same, if_neg same]
  · intro action member
    obtain ⟨_, _, rfl⟩ := List.mem_map.mp (Multiset.mem_coe.mp member)
    rfl

theorem forClient_asked (answered : Answered) :
    forClient client answered.asked = if answered.client = client then answered.asked else 0 := by
  refine forClient_of_client fun action member => ?_
  obtain ⟨answer, _, isAsked⟩ := List.mem_filterMap.mp (Multiset.mem_coe.mp member)
  obtain ⟨_, _, rfl⟩ := Option.map_eq_some_iff.mp isAsked
  rfl

theorem forClient_sum (parts : List (Multiset Asked)) :
    forClient client parts.sum = (parts.map (forClient client)).sum := by
  induction parts with
  | nil => exact forClient_zero
  | cons head rest ih => rw [List.sum_cons, forClient_add, ih, List.map_cons, List.sum_cons]

end Client

/-! ## Messages of workers -/

/-- A message on its way from a worker: the response with these results, in an envelope of
their client, or a command without any. -/
def Parcel (env : WorkerEnvironment) (wire : List ByteString) : Option Answered → Prop
  | some answered => ∃ frame body, sendPart answered.client = some frame ∧
      0 ∉ answered.client ∧
      ResMsg.print env.library none ⟨answered.hdr, answered.answers.map Answer.result⟩ =
        some body ∧
      (∀ answer ∈ answered.answers, answer.Names env) ∧
      wire = [[], mdpwWorker, mdpwReply, frame, [], body]
  | none => ∃ command ∈ [mdpwReady, mdpwHeartbeat], wire = [[], mdpwWorker, command]

/-- A reply to a client that it has been made for. -/
structure Delivers (env : WorkerEnvironment) (client body : ByteString) (answered : Answered) :
    Prop where
  addressed : answered.client = client
  printed : ResMsg.print env.library none ⟨answered.hdr, answered.answers.map Answer.result⟩ =
    some body
  named : ∀ answer ∈ answered.answers, answer.Names env

section Parcels

variable {env : Environment} {workerEnv : WorkerEnvironment}

/-- What a worker sends is a parcel. -/
theorem parcel_of_bears (prints : workerEnv.library.Prints) {sent : Sent}
    (bears : MessageWorker.Sent.Bears workerEnv sent) :
    ∃ wire, sent.msg.send = some wire ∧ Parcel workerEnv wire sent.answered := by
  rw [MessageWorker.Sent.Bears] at bears
  split at bears
  next answered isAnswered =>
    obtain ⟨⟨body, printed, isMsg⟩, nulFree, named⟩ := bears
    have plain := plain_of_isResponse prints ⟨_, printed⟩
    rw [brokerMessage_reply, cStr_of_zero_not_mem nulFree, plain.cStr_eq] at isMsg
    have sends : (sendPart answered.client).isSome :=
      sendPart_isSome_iff.mpr fun _ => nulFree
    obtain ⟨frame, framed⟩ := Option.isSome_iff_exists.mp sends
    have wire : sent.msg.send = some [[], mdpwWorker, mdpwReply, frame, [], body] := by
      rw [isMsg, replyWire]
      refine (Zmsg.send_cons_of_not_uuid (by decide)).mpr ⟨_, ?_, rfl⟩
      refine (Zmsg.send_cons_of_not_uuid (by decide)).mpr ⟨_, ?_, rfl⟩
      refine (Zmsg.send_cons_of_not_uuid (by decide)).mpr ⟨_, ?_, rfl⟩
      refine Zmsg.send_cons.mpr ⟨frame, _, framed, ?_, rfl⟩
      refine (Zmsg.send_cons_of_not_uuid (by decide)).mpr ⟨_, ?_, rfl⟩
      exact (Zmsg.send_cons_of_not_uuid plain.notUuid).mpr ⟨_, rfl, rfl⟩
    exact ⟨_, wire, isAnswered ▸ ⟨frame, body, framed, nulFree, printed, named, rfl⟩⟩
  next isAnswered =>
    obtain ⟨command, isCommand, isMsg⟩ := bears
    refine ⟨[[], mdpwWorker, command], ?_, ?_⟩
    · rw [isMsg]
      exact send_bare isCommand []
    · rw [isAnswered]
      exact ⟨command, isCommand, rfl⟩

/-- What a worker sends, one after the other. -/
theorem parcels_of_bears (prints : workerEnv.library.Prints) {sents : List Sent}
    (bears : ∀ sent ∈ sents, MessageWorker.Sent.Bears workerEnv sent) :
    List.Forall₂ (Parcel workerEnv) (wiresOf sents) (sents.map Sent.answered) := by
  induction sents with
  | nil => exact .nil
  | cons head rest ih =>
      obtain ⟨wire, sends, parcel⟩ := parcel_of_bears prints (bears head List.mem_cons_self)
      rw [wiresOf, List.filterMap_cons, sends, List.map_cons]
      exact .cons parcel (ih fun sent member => bears sent (List.mem_cons_of_mem _ member))

/-- A command of a worker is read without any client. -/
theorem recv_command {peer command : ByteString}
    (isCommand : command ∈ [mdpwReady, mdpwHeartbeat]) :
    (Zmsg.recv (peer :: [[], mdpwWorker, command])).partData =
      [recvPart peer, [], mdpwWorker, command] ∧ cStr command ≠ mdpwReply := by
  simp only [List.mem_cons, List.not_mem_nil, or_false] at isCommand
  rcases isCommand with rfl | rfl <;> exact ⟨rfl, by decide⟩

/-- A reply of a worker is read with the client that its frame names. -/
theorem recv_reply {peer frame body : ByteString} (plain : Plain body) :
    (Zmsg.recv (peer :: [[], mdpwWorker, mdpwReply, frame, [], body])).partData =
      [recvPart peer, [], mdpwWorker, mdpwReply, recvPart frame, [], body] := by
  rw [Zmsg.partData_recv]
  simp only [List.map_cons, List.map_nil, plain.recvPart_eq]
  rfl

/-- What has gone out to a client with a plain name. -/
theorem forwarded_clientReply {client other body : ByteString} (plainClient : Plain client)
    (plainBody : Plain body) (nulFree : 0 ∉ other) (workers : WorkerContainer) :
    ((Traffic.sent .external (MessageBroker.clientReply other ⟨[body]⟩) workers).forwarded.bind
        fun reply => if reply.1 = client then some reply.2 else none) =
      if other = client then some body else none := by
  by_cases same : other = client
  · have sends := clientReply_send plainClient plainBody
    rw [if_pos same, same, Traffic.forwarded, sends]
    simp [clientWire]
  · rw [if_neg same, Option.bind_eq_none_iff]
    rintro ⟨address, text⟩ isForwarded
    refine if_neg fun isClient => same ?_
    rw [Traffic.forwarded] at isForwarded
    split at isForwarded
    next first version fifth sends =>
      obtain ⟨frame, _, framed, _, isFrames⟩ := Zmsg.send_cons.mp sends
      split at isForwarded
      next =>
        obtain rfl := (List.cons.inj isFrames).1
        obtain ⟨rfl, _⟩ := Prod.mk.inj (Option.some.inj isForwarded)
        rw [cStr_of_zero_not_mem nulFree, show first = client from isClient] at framed
        exact (sendPart_eq_plain plainClient).mp framed
      next => contradiction
    next => contradiction

/-- What the broker does with a parcel: it forwards results for the client, if it knows the
worker, and nothing else. -/
theorem handle_parcel {client peer : ByteString} (prints : workerEnv.library.Prints)
    (plain : Plain client) {broker next : MessageBroker} {wire : List ByteString}
    {answered : Option Answered} {clock : WorkerClock} {call : Option DispatchCall}
    (parcel : Parcel workerEnv wire answered)
    (handled : broker.handle env (.worker (peer :: wire) clock) = some (next, call)) :
    next.repliesTo client = broker.repliesTo client ∧
        (broker.workers.exists (peerAddress peer) = true → answeredFor client answered = 0) ∨
      ∃ results body, answered = some results ∧ Delivers workerEnv client body results ∧
        next.repliesTo client = broker.repliesTo client ++ [body] := by
  have isVersion : cStr mdpwWorker = mdpwWorker := by decide
  rw [MessageBroker.handle] at handled
  rcases MessageBroker.handleMessage_cases handled with
    ⟨sender, _, header, rest, parts, _, processed⟩ | ⟨foreign, _⟩
  · cases answered with
    | none =>
        obtain ⟨command, isCommand, rfl⟩ := parcel
        obtain ⟨read, notReply⟩ := @recv_command peer command isCommand
        rw [read] at parts
        obtain ⟨rfl, _, _, rfl⟩ : _ ∧ _ ∧ _ ∧ _ := by simpa using parts.symm
        have nothing := (MessageBroker.workerProcess_forwards processed).2 fun forwards =>
          notReply forwards.1
        exact .inl ⟨nothing.repliesTo client, fun _ => rfl⟩
    | some results =>
        obtain ⟨frame, body, framed, nulFree, printed, named, rfl⟩ := parcel
        have plainBody := plain_of_isResponse prints ⟨_, printed⟩
        rw [recv_reply plainBody] at parts
        obtain ⟨rfl, _, _, rfl⟩ : _ ∧ _ ∧ _ ∧ _ := by simpa using parts.symm
        have isClient := recvPart_eq_plain plain nulFree framed
        have other (isOther : cStr (recvPart frame) ≠ client) :
            answeredFor client (some results) = 0 := by
          rw [answeredFor, Option.elim_some, forClient_asked]
          exact if_neg fun same => isOther (isClient.mpr same)
        have effect := MessageBroker.workerProcess_forwards processed
        rw [Zmsg.unwrap_delimited] at effect
        by_cases forwards : MessageBroker.Forwards broker (cStr (recvPart peer))
            (cStr mdpwReply) (cStr (recvPart frame))
        · obtain ⟨workers, journal⟩ := effect.1 forwards
          have replies : next.repliesTo client = broker.repliesTo client ++
              if cStr (recvPart frame) = client then [body] else [] := by
            rw [MessageBroker.repliesTo, journal, List.filterMap_append,
              MessageBroker.repliesTo, List.filterMap_cons, List.filterMap_cons,
              forwarded_clientReply plain plainBody (zero_not_mem_cStr _)]
            by_cases same : cStr (recvPart frame) = client <;> simp [same, Traffic.forwarded]
          by_cases same : cStr (recvPart frame) = client
          · rw [if_pos same] at replies
            exact .inr ⟨results, body, rfl, ⟨isClient.mp same, printed, named⟩, replies⟩
          · rw [if_neg same, List.append_nil] at replies
            exact .inl ⟨replies, fun _ => other same⟩
        · refine .inl ⟨(effect.2 forwards).repliesTo client, fun known => other ?_⟩
          rintro rfl
          exact forwards ⟨by decide, known, plain.nonempty⟩
  · cases answered with
    | none =>
        obtain ⟨command, isCommand, rfl⟩ := parcel
        exact absurd isVersion (foreign _ _ _ _ (recv_command isCommand).1)
    | some results =>
        obtain ⟨frame, body, _, _, printed, _, rfl⟩ := parcel
        have plainBody := plain_of_isResponse prints ⟨_, printed⟩
        exact absurd isVersion (foreign _ _ _ _ (recv_reply plainBody))

end Parcels

/-! ## Requests -/

/-- A request as `client_process` makes it. -/
def Framed (msg : Zmsg) : Prop :=
  ∃ client body, msg = ⟨[client, [], body]⟩ ∧ 0 ∉ client ∧ Plain body

/-- The actions that a `REQUEST` in the journal asks for. -/
def entryFor (library : Library) (client : ByteString) (entry : Traffic) : Multiset Asked :=
  entry.request.elim 0 fun target => askedFor library client target.2.unwrap

/-- The actions that a message to a worker asks for. -/
def wireFor (library : Library) (client : ByteString) (wire : List ByteString) :
    Multiset Asked :=
  (requestOf wire).elim 0 (askedFor library client)

/-- The actions that the messages on a channel to a worker ask for. -/
def wiresFor (library : Library) (client : ByteString) (wires : List (List ByteString)) :
    Multiset Asked :=
  (wires.map (wireFor library client)).sum

/-- What the broker sends to workers: commands, and requests that it has been handed. -/
def Routes (handed : List Zmsg) (entry : Traffic) : Prop :=
  entry.Tells ∨ ∃ worker payload workers, payload ∈ handed ∧
    (MessageBroker.workerMessage worker mdpwRequest [] (some payload)).send.isSome = true ∧
    entry = .sent .internal
      (MessageBroker.workerMessage worker mdpwRequest [] (some payload)) workers

section Requests

variable {library : Library} {client : ByteString} {channels : Channels}

@[simp] theorem wiresFor_nil : wiresFor library client [] = 0 := rfl

@[simp] theorem wiresFor_append (front back : List (List ByteString)) :
    wiresFor library client (front ++ back) =
      wiresFor library client front + wiresFor library client back := by
  rw [wiresFor, List.map_append, List.sum_append, wiresFor, wiresFor]

/-- The request of a client is framed, if it can be printed. -/
theorem framed_workerRequest {env : Environment} (prints : env.library.Prints)
    (extraction : Extraction) (sender : ByteString) :
    Framed (MessageBroker.workerRequest env extraction sender) := by
  have body := plain_of_prints prints (some 2)
    (RawMsg.toValue ⟨extraction.hdr, extraction.unknown⟩)
  refine ⟨cStr sender, _, ?_, zero_not_mem_cStr sender, body⟩
  simp [MessageBroker.workerRequest, Zmsg.wrap, Zmsg.pushFront, Zmsg.bodySet,
    Zmsg.emplaceBack, Zmsg.empty, body.cStr_eq]

/-- What an event hands over is framed. -/
theorem framed_handedBy {env : Environment} (prints : env.library.Prints) {event : BrokerEvent}
    {msg : Zmsg} (handed : MessageBroker.handedBy env event = some msg) : Framed msg := by
  cases event with
  | worker | timer | segment => contradiction
  | client frames input =>
      obtain ⟨⟨sender, mstr⟩, _, handed⟩ := Option.bind_eq_some_iff.mp handed
      dsimp only at handed
      split at handed
      next =>
        obtain rfl := Option.some.inj handed
        exact framed_workerRequest prints _ sender
      next => contradiction

/-- A request asks for the same actions of a client in the broker and on the wire. -/
theorem wireFor_request (plain : Plain client) {worker : Worker} {payload : Zmsg}
    (framed : Framed payload) {peer : ByteString} {wire : List ByteString}
    (sent : (MessageBroker.workerMessage worker mdpwRequest [] (some payload)).send =
      some (peer :: wire)) :
    wireFor library client wire = askedFor library client payload.unwrap := by
  obtain ⟨sender, body, rfl, nulFree, plainBody⟩ := framed
  have command : cStr mdpwRequest = mdpwRequest := by decide
  rw [MessageBroker.workerMessage_eq, command] at sent
  obtain ⟨_, _, _, behind, whole⟩ := Zmsg.send_cons.mp sent
  obtain ⟨_, rfl⟩ := List.cons.inj whole
  obtain ⟨_, envelope, rfl⟩ := send_command (by decide) behind
  obtain ⟨frame, _, framed, delimited, rfl⟩ := Zmsg.send_cons.mp envelope
  obtain ⟨_, bodied, rfl⟩ := (Zmsg.send_cons_of_not_uuid (by decide)).mp delimited
  obtain ⟨_, last, rfl⟩ := (Zmsg.send_cons_of_not_uuid plainBody.notUuid).mp bodied
  obtain rfl : [] = _ := Option.some.inj last
  have received : (Zmsg.recv [[], mdpwWorker, mdpwRequest, frame, [], body]).partData =
      [[], mdpwWorker, mdpwRequest, recvPart frame, [], body] := by
    rw [Zmsg.partData_recv]
    simp only [List.map_cons, List.map_nil, plainBody.recvPart_eq]
    rfl
  have read : requestOf [[], mdpwWorker, mdpwRequest, frame, [], body] =
      some (cStr (recvPart frame), ⟨[body]⟩) := by
    rw [requestOf, received]
    simp only [command, if_true, Zmsg.unwrap_delimited]
  have isClient := recvPart_eq_plain plain nulFree framed
  rw [wireFor, read, Option.elim_some, Zmsg.unwrap_delimited, cStr_of_zero_not_mem nulFree,
    askedFor, askedFor]
  simp only [isClient]

/-- A command asks for nothing. -/
theorem requestOf_of_tells {entry : Traffic} (tells : entry.Tells) {peer : ByteString}
    {wire : List ByteString} (isRouted : routed entry = some (peer, wire)) :
    requestOf wire = none := by
  have same := @requestsIn_route (fun _ => []) peer entry tells
  rw [Channels.route, isRouted] at same
  simpa [Channels.push, requestsIn] using same

/-- What the broker sends arrives on one channel. -/
theorem wiresFor_route (plain : Plain client) {handed : List Zmsg}
    (framed : ∀ msg ∈ handed, Framed msg) {entry : Traffic} (routes : Routes handed entry) :
    ∃ place, wiresFor library client (channels.route entry place) =
        wiresFor library client (channels place) + entryFor library client entry ∧
      ∀ other, other ≠ place → channels.route entry other = channels other := by
  cases isRouted : routed entry with
  | none =>
      have same : channels.route entry = channels := by rw [Channels.route, isRouted]
      have nothing : entryFor library client entry = 0 := by
        cases routes with
        | inl tells => rw [entryFor, Network.request_of_tells tells, Option.elim_none]
        | inr request =>
            obtain ⟨worker, payload, workers, _, sends, rfl⟩ := request
            obtain ⟨frames, sends⟩ := Option.isSome_iff_exists.mp sends
            rw [routed, sends] at isRouted
            rw [MessageBroker.workerMessage_eq] at sends
            obtain ⟨_, _, _, _, rfl⟩ := Zmsg.send_cons.mp sends
            contradiction
      exact ⟨[], by rw [same, nothing, add_zero], fun _ _ => by rw [same]⟩
  | some found =>
      obtain ⟨place, wire⟩ := found
      have pushes : channels.route entry = channels.push place wire := by
        rw [Channels.route, isRouted]
      refine ⟨place, ?_, fun other different => ?_⟩
      · rw [pushes, Channels.push, Function.update_self, wiresFor_append]
        congr 1
        rw [wiresFor, List.map_singleton, List.sum_singleton]
        cases routes with
        | inl tells =>
            rw [wireFor, requestOf_of_tells tells isRouted, entryFor,
              Network.request_of_tells tells]
            rfl
        | inr request =>
            obtain ⟨worker, payload, workers, isHanded, sends, rfl⟩ := request
            obtain ⟨frames, sends⟩ := Option.isSome_iff_exists.mp sends
            rw [routed, sends] at isRouted
            have isFrames := sends
            rw [MessageBroker.workerMessage_eq] at isFrames
            obtain ⟨first, others, _, _, rfl⟩ := Zmsg.send_cons.mp isFrames
            obtain ⟨rfl, rfl⟩ := Prod.mk.inj (Option.some.inj isRouted)
            rw [wireFor_request plain (framed payload isHanded) sends, entryFor,
              MessageBroker.request_workerMessage, Option.elim_some]
      · rw [pushes, Channels.push, Function.update_of_ne different]

end Requests

end Cdcm.System
