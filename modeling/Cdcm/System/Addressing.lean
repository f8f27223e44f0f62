import Cdcm.System.Envelope

/-!
# Addresses of peers

A router socket puts the identity frame of the peer in front of a message, and
takes the first frame of a message that goes out as the identity of the peer.  In
between the program keeps the address in parts and in C strings.
-/

namespace Cdcm.System

open Json Protocol Zmq Backend Frontend Machine

/-- The address under which the broker knows a peer. -/
def peerAddress (identity : ByteString) : ByteString := cStr (recvPart identity)

/-- Identities that the broker knows by the empty address: it never sends to one,
and it does not register one as a worker. -/
def Unaddressed (identity : ByteString) : Prop :=
  ¬ IsUuidFrame identity ∧ ∀ byte ∈ identity.head?, byte = 0

/-- Identities whose frame survives the way in and out. -/
def Faithful (identity : ByteString) : Prop := IsUuidFrame identity ∨ Plain identity

/-- An address and the frame that it goes out as and comes back from. -/
structure Hop (address frame : ByteString) : Prop where
  sends : sendPart address = some frame
  receives : recvPart frame = address
  cut : cStr address = address

/-! ## Addresses and frames -/

section Addresses

variable {identity : ByteString}

/-- The address of a faithful identity goes out as its frame. -/
theorem Faithful.hop (faithful : Faithful identity) : Hop (peerAddress identity) identity := by
  rcases faithful with uuid | plain
  · have address : peerAddress identity = encodeUuid identity := by
      rw [peerAddress, recvPart, if_pos uuid]
      exact cStr_of_zero_not_mem (zero_not_mem_encodeUuid identity)
    rw [address]
    constructor
    · rw [sendPart, if_pos (looksLikeUuid_encodeUuid uuid), decodeUuid_encodeUuid uuid]
    · rw [recvPart, if_pos uuid]
    · exact cStr_of_zero_not_mem (zero_not_mem_encodeUuid identity)
  · have address : peerAddress identity = identity := by
      rw [peerAddress, plain.recvPart_eq, plain.cStr_eq]
    rw [address]
    exact ⟨plain.sendPart_eq, plain.recvPart_eq, plain.cStr_eq⟩

theorem Unaddressed.address (unaddressed : Unaddressed identity) : peerAddress identity = [] := by
  obtain ⟨notUuid, startsNul⟩ := unaddressed
  rw [peerAddress, recvPart, if_neg notUuid]
  cases identity with
  | nil => rfl
  | cons byte rest =>
      have nul : byte = 0 := startsNul byte rfl
      rw [nul]
      rfl

theorem Unaddressed.hop (unaddressed : Unaddressed identity) : Hop (peerAddress identity) [] := by
  rw [unaddressed.address]
  exact ⟨rfl, rfl, rfl⟩

theorem Faithful.nonempty (faithful : Faithful identity) : peerAddress identity ≠ [] := by
  intro empty
  have sends := faithful.hop.sends
  rw [empty] at sends
  obtain rfl := Option.some.inj sends
  rcases faithful with uuid | plain
  · exact absurd uuid.1 (by decide)
  · exact plain.nonempty rfl

/-- Only unaddressed identities have the empty address. -/
theorem unaddressed_of_address (empty : peerAddress identity = []) : Unaddressed identity := by
  have notUuid : ¬ IsUuidFrame identity := by
    intro uuid
    exact Faithful.nonempty (.inl uuid) empty
  refine ⟨notUuid, ?_⟩
  intro byte isHead
  rw [peerAddress, recvPart, if_neg notUuid] at empty
  cases identity with
  | nil => contradiction
  | cons first rest =>
      obtain rfl : first = byte := Option.some.inj isHead
      by_contra nonzero
      rw [cStr, List.takeWhile_cons_of_pos (by simpa using nonzero)] at empty
      contradiction

/-- Only the address of a faithful identity goes out as its frame. -/
theorem faithful_of_sends (addressed : peerAddress identity ≠ [])
    (sends : sendPart (peerAddress identity) = some identity) : Faithful identity := by
  by_cases uuid : IsUuidFrame identity
  · exact .inl uuid
  · right
    rw [peerAddress, recvPart, if_neg uuid] at sends addressed
    by_cases shape : LooksLikeUuid (cStr identity)
    · rw [sendPart, if_pos shape] at sends
      exact absurd (isUuidFrame_of_decodeUuid sends) uuid
    · rw [sendPart, if_neg shape] at sends
      have same := Option.some.inj sends
      rw [same] at addressed shape
      exact ⟨addressed, cStr_eq_self_iff.mp same, shape⟩

end Addresses

/-! ## First frames -/

/-- A wrapped message goes out behind the frame of its address. -/
theorem send_wrap_head {msg : Zmsg} {address delim : ByteString} {frames : List ByteString}
    (sent : (msg.wrap address (some delim)).send = some frames) :
    sendPart (cStr address) = frames.head? := by
  obtain ⟨frame, others, framed, _, rfl⟩ := Zmsg.send_cons.mp sent
  exact framed

/-- What the broker sends to a hop's address goes out behind its frame. -/
theorem Hop.head {address frame : ByteString} (hop : Hop address frame) {msg : Zmsg}
    {delim : ByteString} {frames : List ByteString}
    (sent : (msg.wrap address (some delim)).send = some frames) :
    frames.head? = some frame := by
  rw [← send_wrap_head sent, hop.cut, hop.sends]

/-! ## The way through a worker -/

/-- The frames of a command and of what follows it. -/
theorem send_command {command : ByteString} (notUuid : ¬ LooksLikeUuid command)
    {rest frames : List ByteString}
    (sent : Zmsg.send ⟨[] :: mdpwWorker :: command :: rest⟩ = some frames) :
    ∃ others, Zmsg.send ⟨rest⟩ = some others ∧
      frames = [] :: mdpwWorker :: command :: others := by
  obtain ⟨second, sentSecond, rfl⟩ := (Zmsg.send_cons_of_not_uuid (by decide)).mp sent
  obtain ⟨third, sentThird, rfl⟩ := (Zmsg.send_cons_of_not_uuid (by decide)).mp sentSecond
  obtain ⟨others, sentOthers, rfl⟩ := (Zmsg.send_cons_of_not_uuid notUuid).mp sentThird
  exact ⟨others, sentOthers, rfl⟩

/-- The frames of an envelope. -/
theorem Hop.send_envelope {address frame : ByteString} (hop : Hop address frame)
    {rest frames : List ByteString} (sent : Zmsg.send ⟨address :: [] :: rest⟩ = some frames) :
    ∃ others, frames = frame :: [] :: others := by
  obtain ⟨client, second, framed, sentSecond, rfl⟩ := Zmsg.send_cons.mp sent
  obtain ⟨others, _, rfl⟩ := (Zmsg.send_cons_of_not_uuid (by decide)).mp sentSecond
  rw [hop.sends] at framed
  exact ⟨others, by rw [Option.some.inj framed]⟩

/-- A worker recovers the address of a request's client. -/
theorem Hop.requestOf {address frame : ByteString} (hop : Hop address frame) {worker : Worker}
    {body peer : ByteString} {wire : List ByteString}
    (sent : (MessageBroker.workerMessage worker mdpwRequest []
      (some ⟨[address, [], body]⟩)).send = some (peer :: wire)) :
    ∃ request, Backend.requestOf wire = some (address, request) := by
  have command : cStr mdpwRequest = mdpwRequest := by decide
  rw [MessageBroker.workerMessage_eq, command] at sent
  obtain ⟨_, others, _, sentOthers, whole⟩ := Zmsg.send_cons.mp sent
  obtain ⟨_, rfl⟩ := List.cons.inj whole
  obtain ⟨_, sentEnvelope, rfl⟩ := send_command (by decide) sentOthers
  obtain ⟨rest, rfl⟩ := hop.send_envelope sentEnvelope
  have received : (Zmsg.recv ([] :: mdpwWorker :: mdpwRequest :: frame :: [] :: rest)).partData =
      [] :: mdpwWorker :: mdpwRequest :: address :: [] :: rest.map recvPart := by
    simp only [Zmsg.partData_recv, List.map_cons, hop.receives]
    rfl
  rw [Backend.requestOf, received]
  simp only [command, if_true, Zmsg.unwrap_delimited, hop.cut]
  exact ⟨_, rfl⟩

/-- The broker recovers the client's address of a reply. -/
theorem Hop.workerCommand {address frame : ByteString} (hop : Hop address frame)
    {body peer : ByteString} {wire : List ByteString}
    (sent : (MessageWorker.brokerMessage mdpwReply []
      (some (MessageWorker.replyMessage body address))).send = some wire) :
    Frontend.workerCommand (peer :: wire) = some ⟨peerAddress peer, mdpwReply, address⟩ := by
  have command : cStr mdpwReply = mdpwReply := by decide
  have version : cStr mdpwWorker = mdpwWorker := by decide
  rw [brokerMessage_reply, hop.cut] at sent
  obtain ⟨_, sentEnvelope, rfl⟩ := send_command (by decide) sent
  obtain ⟨rest, rfl⟩ := hop.send_envelope sentEnvelope
  have received :
      (Zmsg.recv (peer :: [] :: mdpwWorker :: mdpwReply :: frame :: [] :: rest)).partData =
        recvPart peer :: [] :: mdpwWorker :: mdpwReply :: address :: [] ::
          rest.map recvPart := by
    simp only [Zmsg.partData_recv, List.map_cons, hop.receives]
    rfl
  rw [Frontend.workerCommand, received]
  simp only [version, if_true, command, Zmsg.unwrap_delimited, hop.cut, peerAddress]

/-- On a worker's reply, the broker sends to the client of the envelope only, and to
nobody when that is empty. -/
theorem handle_reply_external {env : Environment} {broker next : MessageBroker}
    {frames : List ByteString} {clock : WorkerClock} {call : Option DispatchCall}
    {sender client : ByteString}
    (parsed : Frontend.workerCommand frames = some ⟨sender, mdpwReply, client⟩)
    (handled : broker.handle env (.worker frames clock) = some (next, call)) :
    ∃ sent, next.journal = broker.journal ++ .command sender mdpwReply :: sent ∧
      ∀ msg workers, .sent .external msg workers ∈ sent →
        client ≠ [] ∧ ∃ rest, msg = MessageBroker.clientReply client rest := by
  rcases MessageBroker.handleMessage_cases handled with
    ⟨sender', _, header, rest, parts, isWorker, processed⟩ | ⟨foreign, _⟩
  · rw [Frontend.workerCommand, parts] at parsed
    cases rest with
    | nil => contradiction
    | cons part rest =>
        simp only [isWorker, if_true, Option.some.injEq, WorkerCommand.mk.injEq] at parsed
        obtain ⟨isSender, isReply, isClient⟩ := parsed
        have enough : ¬ Zmsg.parts ⟨part :: rest⟩ < 1 := by simp [Zmsg.parts]
        simp only [MessageBroker.workerProcess, if_neg enough, Zmsg.popFront_cons,
          Option.bind_eq_bind, Option.bind_eq_some_iff, Prod.exists, isSender, isReply]
          at processed
        obtain ⟨required, worker, isRequired, processed⟩ := processed
        obtain ⟨_, _, workers, rfl, _⟩ := MessageBroker.workerRequire_spec isRequired
        have notReady : mdpwReply ≠ mdpwReady := by decide
        rw [MessageBroker.processCommand, if_neg notReady, if_pos rfl] at processed
        split at processed
        · have journal := (MessageBroker.forwardReply_spec processed).2.2.2.2.2
          rw [isClient] at journal
          refine ⟨_, journal.trans (List.append_assoc _ _ _), ?_⟩
          intro msg workers member
          split at member
          next => simp at member
          next named =>
            obtain ⟨_, rfl, _⟩ := Traffic.sent.inj (List.mem_singleton.mp member)
            exact ⟨named, _, rfl⟩
        · simp only [MessageBroker.workerDelete, if_true, Option.bind_eq_bind,
            Option.bind_eq_some_iff, Option.pure_def, Option.some.injEq, Prod.mk.injEq]
            at processed
          obtain ⟨_, ⟨_, told, rfl⟩, rfl, _⟩ := processed
          obtain ⟨rfl, _⟩ := MessageBroker.sendOn_spec told
          refine ⟨[_], List.append_assoc _ _ _, ?_⟩
          intro msg workers member
          exact absurd (List.mem_singleton.mp member) (by simp)
  · rw [Frontend.workerCommand] at parsed
    split at parsed
    next sender' delimiter header part rest parts =>
      split at parsed
      next isWorker => exact absurd isWorker (foreign _ _ _ _ parts)
      next => contradiction
    next => contradiction

/-! ## Transparent addressing -/

/-- Whatever the broker sends to the peer with this identity frame has it as its
first frame. -/
structure Transparent (identity : ByteString) : Prop where
  /-- The broker's own replies to a message of the peer. -/
  replies : ∀ (env : Environment) (broker next : MessageBroker) rest input call new,
    broker.handle env (.client (identity :: rest) input) = some (next, call) →
    next.journal = broker.journal ++ new → ∀ socket msg workers,
      .sent socket msg workers ∈ new → ∀ frames, msg.send = some frames →
        frames.head? = some identity
  /-- The reply to a request of the peer, on its way from the broker through any
  worker back to the broker. -/
  relayed : ∀ (env : Environment) (broker next : MessageBroker) rest input made request,
    broker.handle env (.client (identity :: rest) input) = some (next, some made) →
    made.msg = some request →
    ∀ (worker : Worker) peer wire,
      (MessageBroker.workerMessage worker mdpwRequest [] (some request)).send =
        some (peer :: wire) →
    ∀ (workerEnv : WorkerEnvironment) (process serving : MessageWorker) (poll : PollInput),
      poll.frames = some wire → process.step workerEnv (.poll poll) = some serving →
    ∀ body back, (MessageWorker.brokerMessage mdpwReply []
        (some (MessageWorker.replyMessage body serving.replyTo))).send = some back →
    ∀ (late final : MessageBroker) sender clock call new,
      late.handle env (.worker (sender :: back) clock) = some (final, call) →
      final.journal = late.journal ++ new → ∀ msg workers,
        .sent .external msg workers ∈ new → ∀ frames, msg.send = some frames →
          frames.head? = some identity
  /-- The commands to the worker that the broker registers for the peer. -/
  commands : ∀ (broker next : MessageBroker) now worker,
    broker.workerRequire now (peerAddress identity) = some (next, worker) →
    ∀ command option msg frames,
      (MessageBroker.workerMessage worker command option msg).send = some frames →
        frames.head? = some identity

/-- A poll that reads a request serves its client. -/
theorem replyTo_of_poll {env : WorkerEnvironment} {process serving : MessageWorker}
    {input : PollInput} {wire : List ByteString} {client : ByteString} {request : Zmsg}
    (arrived : input.frames = some wire)
    (isRequest : Backend.requestOf wire = some (client, request))
    (stepped : process.step env (.poll input) = some serving) : serving.replyTo = client := by
  rcases MessageWorker.step_cases stepped with ⟨_, _, isEvent, _⟩ |
    ⟨polled, isEvent, _, isPolled⟩ | ⟨_, _, isEvent, _⟩
  · contradiction
  · obtain rfl := WorkerEvent.poll.inj isEvent
    have read := (MessageWorker.poll_spec isPolled).request
    rw [arrived, Option.bind_some, isRequest] at read
    exact read.1
  · contradiction

/-- Faithful and unaddressed identities are addressed transparently: the one's
address is a hop of its frame, the other's of the empty frame, to which the broker
never sends. -/
theorem transparent_of_hop {identity frame : ByteString}
    (hop : Hop (peerAddress identity) frame)
    (same : peerAddress identity ≠ [] → frame = identity) : Transparent identity where
  replies := by
    intro env broker next rest input call new handled journal socket msg workers member frames
      sent
    have processed := MessageBroker.handle_client handled
    obtain ⟨replies, appended, areReplies⟩ := processed.journal
    rw [journal, List.append_assoc] at appended
    rw [List.append_cancel_left appended] at member
    rcases List.mem_append.mp member with reply | handed
    · obtain ⟨addressed, client, body, isReply⟩ := areReplies _ reply
      obtain ⟨_, rfl, _⟩ := Traffic.sent.inj isReply
      rw [hop.head sent, same addressed]
    · obtain ⟨_, _, impossible⟩ := List.mem_map.mp handed
      contradiction
  relayed := by
    intro env broker next rest input made request handled isRequest worker peer wire sent
      workerEnv process serving poll arrived stepped body back isBack late final sender clock
      call new isLate journal msg workers member frames isSent
    obtain ⟨printed, shape⟩ := (MessageBroker.handle_client handled).shape made rfl
    rw [isRequest] at shape
    obtain rfl := Option.some.inj shape
    have address : cStr (MessageBroker.senderAddress (identity :: rest)) =
        peerAddress identity := hop.cut
    rw [address] at sent
    obtain ⟨unwrapped, isUnwrapped⟩ := hop.requestOf sent
    rw [replyTo_of_poll arrived isUnwrapped stepped] at isBack
    obtain ⟨replies, appended, areReplies⟩ :=
      handle_reply_external (hop.workerCommand isBack) isLate
    rw [journal] at appended
    rw [List.append_cancel_left appended] at member
    obtain reply := (List.mem_cons.mp member).resolve_left (by simp)
    obtain ⟨addressed, content, rfl⟩ := areReplies msg workers reply
    rw [hop.head isSent, same addressed]
  commands := by
    intro broker next now worker required command option msg frames sent
    obtain ⟨addressed, hasId, _⟩ := MessageBroker.workerRequire_spec required
    rw [MessageBroker.workerMessage, hasId] at sent
    rw [hop.head sent, same addressed]

/-- A peer that is addressed transparently is faithful, unless it has no address. -/
theorem Transparent.faithful {identity : ByteString} (transparent : Transparent identity) :
    Faithful identity ∨ Unaddressed identity := by
  by_cases empty : peerAddress identity = []
  · exact .inr (unaddressed_of_address empty)
  · left
    have required : (sampleBroker.workerRequire 0 (peerAddress identity)).isSome := by
      rw [MessageBroker.workerRequire, if_neg (by simpa using empty)]
      split <;> rfl
    obtain ⟨⟨next, worker⟩, isRequired⟩ := Option.isSome_iff_exists.mp required
    have sends : (MessageBroker.workerMessage worker mdpwHeartbeat [] none).send.isSome := by
      rw [MessageBroker.workerMessage_eq]
      apply Zmsg.send_isSome
      intro part member
      simp only [Option.getD_none, Zmsg.empty, List.mem_cons, List.not_mem_nil, or_false]
        at member
      rcases member with rfl | rfl | rfl | rfl
      · exact zero_not_mem_cStr _
      · decide
      · decide
      · exact zero_not_mem_cStr _
    obtain ⟨frames, sent⟩ := Option.isSome_iff_exists.mp sends
    have head := transparent.commands sampleBroker next 0 worker isRequired mdpwHeartbeat []
      none frames sent
    obtain ⟨_, hasId, _⟩ := MessageBroker.workerRequire_spec isRequired
    rw [MessageBroker.workerMessage, hasId] at sent
    apply faithful_of_sends empty
    rw [← head, ← send_wrap_head sent, peerAddress, cStr_cStr]

theorem transparent_iff {identity : ByteString} :
    Transparent identity ↔ Faithful identity ∨ Unaddressed identity := by
  constructor
  · exact Transparent.faithful
  · intro shape
    rcases shape with faithful | unaddressed
    · exact transparent_of_hop faithful.hop fun _ => rfl
    · exact transparent_of_hop unaddressed.hop fun addressed =>
        absurd unaddressed.address addressed

/-- Two peers are addressed transparently and apart exactly when each identity
survives the way in and out or is never sent to, and at most one of them is of the
latter kind. -/
theorem addressing_transparent (first second : ByteString) :
    (Transparent first ∧ Transparent second ∧
        (first ≠ second → peerAddress first ≠ peerAddress second)) ↔
      (Faithful first ∨ Unaddressed first) ∧ (Faithful second ∨ Unaddressed second) ∧
        (first ≠ second → ¬ (Unaddressed first ∧ Unaddressed second)) := by
  rw [transparent_iff, transparent_iff]
  constructor
  · rintro ⟨firstShape, secondShape, apart⟩
    refine ⟨firstShape, secondShape, ?_⟩
    rintro different ⟨firstEmpty, secondEmpty⟩
    exact apart different (firstEmpty.address.trans secondEmpty.address.symm)
  · rintro ⟨firstShape, secondShape, notBoth⟩
    refine ⟨firstShape, secondShape, ?_⟩
    intro different same
    rcases firstShape with firstFaithful | firstEmpty
    · rcases secondShape with secondFaithful | secondEmpty
      · have sends := firstFaithful.hop.sends
        rw [same, secondFaithful.hop.sends] at sends
        exact different (Option.some.inj sends).symm
      · exact firstFaithful.nonempty (same.trans secondEmpty.address)
    · rcases secondShape with secondFaithful | secondEmpty
      · exact secondFaithful.nonempty (same.symm.trans firstEmpty.address)
      · exact notBoth different ⟨firstEmpty, secondEmpty⟩

/-- Two workers whose identities agree up to a NUL byte. -/
def nulWorkers : List ByteString := [[119, 0, 1], [119, 0, 2]]

/-- The broker takes the second worker's `READY` for one of the first, and sends the
`DISCONNECT` to a third address. -/
theorem nulWorkers_confused :
    ∃ broker, Run (MessageBroker.step lateEnv) Unguarded sampleBroker
        (nulWorkers.map fun identity =>
          .worker (identity :: [] :: mdpwWorker :: mdpwReady :: []) ⟨0, 0, 0⟩) broker ∧
      sentOn .internal broker.journal = [[[119], [], mdpwWorker, mdpwDisconnect]] ∧
      nulWorkers.map peerAddress = [[119], [119]] := by
  obtain ⟨broker, run, effect⟩ := Run.exists_of_exec (fun broker : MessageBroker => decide
    (sentOn .internal broker.journal = [[[119], [], mdpwWorker, mdpwDisconnect]]))
    (by decide +kernel : (exec (MessageBroker.step lateEnv) Unguarded sampleBroker
      (nulWorkers.map fun identity =>
        .worker (identity :: [] :: mdpwWorker :: mdpwReady :: []) ⟨0, 0, 0⟩)).any _ = true)
  exact ⟨broker, run, of_decide_eq_true effect, by decide⟩

end Cdcm.System
