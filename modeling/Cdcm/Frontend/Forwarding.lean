import Cdcm.Frontend.RequestQueue

/-!
# What clients get from workers

The broker sends two kinds of messages to clients: its own replies, which name the service
that the client has asked, and the replies of workers, which have an empty part in that
place.  A reply of a worker is forwarded once, when it is read, and nothing else is ever
sent in that form.
-/

namespace Cdcm.Frontend

open Json Protocol SessionsCache Zmq WorkerContainer

/-! ## Addresses on the wire -/

section Addresses

variable {client part frame : ByteString}

/-- No other part goes out as the frame of a plain client. -/
theorem sendPart_eq_plain (plain : Plain client) : sendPart part = some client ↔ part = client := by
  constructor
  · intro sends
    rw [sendPart] at sends
    split at sends
    next =>
      have uuid := isUuidFrame_of_decodeUuid sends
      exact absurd (List.mem_of_mem_head? uuid.2) plain.nulFree
    next => exact Option.some.inj sends
  · rintro rfl
    exact plain.sendPart_eq

/-- No other part comes back from the wire as a plain client. -/
theorem recvPart_eq_plain (plain : Plain client) (nulFree : 0 ∉ part)
    (sends : sendPart part = some frame) : cStr (recvPart frame) = client ↔ part = client := by
  rw [sendPart] at sends
  split at sends
  next shape =>
    have uuid := isUuidFrame_of_decodeUuid sends
    have other {address : ByteString} (looks : LooksLikeUuid address) : address ≠ client := by
      rintro rfl
      exact plain.notUuid looks
    rw [recvPart, if_pos uuid, cStr_of_zero_not_mem (zero_not_mem_encodeUuid frame)]
    exact iff_of_false (other (looksLikeUuid_encodeUuid uuid)) (other shape)
  next =>
    obtain rfl := Option.some.inj sends
    rw [recvPart_of_nulFree nulFree, cStr_of_zero_not_mem nulFree]

end Addresses

namespace Traffic

/-- The client and the body of a worker's reply that the broker sends on. -/
def forwarded : Traffic → Option (ByteString × ByteString)
  | .sent .external msg _ =>
      match msg.send with
      | some [client, [], version, [], body] =>
          if version = mdpcClient then some (client, body) else none
      | _ => none
  | _ => none

/-- A reply of the broker itself names its service. -/
theorem forwarded_localReply {sender client body : ByteString} {workers : WorkerContainer}
    (named : client ≠ []) (nulFree : 0 ∉ client) :
    (Traffic.sent .external (MessageBroker.localReply sender client body) workers).forwarded =
      none := by
  rw [forwarded]
  split
  next first version fifth sends =>
    have shape : MessageBroker.localReply sender client body =
        ⟨[cStr sender, [], mdpcClient, client, cStr body]⟩ := by
      have isVersion : cStr mdpcClient = mdpcClient := by decide
      simp [MessageBroker.localReply, Zmsg.wrap, Zmsg.pushFront, Zmsg.bodySet, Zmsg.emplaceBack,
        Zmsg.empty, isVersion, cStr_of_zero_not_mem nulFree]
    rw [shape] at sends
    obtain ⟨_, _, _, sends, same⟩ := Zmsg.send_cons.mp sends
    obtain ⟨_, rfl⟩ := List.cons.inj same
    obtain ⟨_, sends, same⟩ := (Zmsg.send_cons_of_not_uuid (by decide)).mp sends
    obtain ⟨_, rfl⟩ := List.cons.inj same
    obtain ⟨_, sends, same⟩ := (Zmsg.send_cons_of_not_uuid (by decide)).mp sends
    obtain ⟨_, rfl⟩ := List.cons.inj same
    obtain ⟨frame, _, framed, _, same⟩ := Zmsg.send_cons.mp sends
    obtain ⟨rfl, _⟩ := List.cons.inj same
    rw [sendPart] at framed
    split at framed
    next =>
      have uuid := isUuidFrame_of_decodeUuid framed
      exact absurd uuid.1 (by decide)
    next => exact absurd (Option.some.inj framed) named
  next => rfl

end Traffic

namespace MessageBroker

variable {env : Environment} {broker next : MessageBroker}

/-- A step that forwards no reply of a worker. -/
def ForwardsNothing (broker next : MessageBroker) : Prop :=
  ∃ sent, next.journal = broker.journal ++ sent ∧ ∀ entry ∈ sent, entry.forwarded = none

theorem ForwardsNothing.of_journal (journal : next.journal = broker.journal) :
    ForwardsNothing broker next :=
  ⟨[], by rw [journal, List.append_nil], by simp⟩

theorem ForwardsNothing.trans {last : MessageBroker} (first : ForwardsNothing broker next)
    (second : ForwardsNothing next last) : ForwardsNothing broker last := by
  obtain ⟨sent, journal, none⟩ := first
  obtain ⟨more, journalMore, noneMore⟩ := second
  refine ⟨sent ++ more, by rw [journalMore, journal, List.append_assoc], ?_⟩
  intro entry member
  cases List.mem_append.mp member with
  | inl old => exact none entry old
  | inr new => exact noneMore entry new

/-- An entry that is noted. -/
theorem forwardsNothing_record {entry : Traffic} (none : entry.forwarded = none) :
    ForwardsNothing broker (broker.record entry) :=
  ⟨[entry], rfl, fun other member => by rw [List.mem_singleton.mp member, none]⟩

/-! ## Messages of clients -/

theorem sendLocalToClient_forwardsNothing {resultMessage : ResMsg} {sender client : ByteString}
    (nulFree : 0 ∉ client)
    (sent : broker.sendLocalToClient env resultMessage sender client = some next) :
    ForwardsNothing broker next := by
  rw [sendLocalToClient] at sent
  split at sent
  next addressed =>
    simp only [Option.bind_eq_bind, Option.bind_eq_some_iff] at sent
    obtain ⟨body, _, sent⟩ := sent
    obtain ⟨rfl, _⟩ := sendOn_spec sent
    exact forwardsNothing_record (Traffic.forwarded_localReply addressed.1 nulFree)
  next =>
    obtain rfl := Option.some.inj sent
    exact .of_journal rfl

theorem doActs_forwardsNothing {sess : Option Session} {acts : Nat → ActInput}
    {known : List (ActionMsg × Nat)} {msgs results : List ResultMsg}
    (acted : known.foldlM (fun (broker, msgs) (actionMessage, position) =>
        doAct broker env sess (acts position) actionMessage msgs) (broker, msgs) =
      some (next, results)) : ForwardsNothing broker next := by
  induction known generalizing broker msgs with
  | nil =>
      simp only [List.foldlM_nil, Option.pure_def, Option.some.injEq, Prod.mk.injEq] at acted
      exact .of_journal (congrArg journal acted.1.symm)
  | cons head tail ih =>
      simp only [List.foldlM_cons, Option.bind_eq_bind, Option.bind_eq_some_iff,
        Prod.exists] at acted
      obtain ⟨_, _, first, rest⟩ := acted
      simp only [doAct, Option.bind_eq_bind, Option.bind_eq_some_iff, Prod.exists,
        Option.pure_def, Option.some.injEq, Prod.mk.injEq] at first
      obtain ⟨sessions, _, _, rfl, _⟩ := first
      have same : ForwardsNothing broker { broker with
          sessions := sessions, replied := broker.replied + 1 } := .of_journal rfl
      exact same.trans (ih rest)

theorem endTry_forwardsNothing {now : Int} {hdr : Header} {sender : ByteString}
    {msg rest : Zmsg} {fault : Option Fault}
    (ended : broker.endTry env now hdr sender msg fault = some (next, rest)) :
    ForwardsNothing broker next := by
  cases fault with
  | none =>
      obtain ⟨rfl, _⟩ := Prod.mk.inj (Option.some.inj ended)
      exact .of_journal rfl
  | some fault =>
      cases fault with
      | undefined => contradiction
      | exception =>
          simp only [endTry, rejectMalformed, Option.bind_eq_bind, Option.bind_eq_some_iff,
            Option.pure_def, Option.some.injEq, Prod.mk.injEq] at ended
          obtain ⟨_, _, _, sent, rfl, _⟩ := ended
          have asked : ForwardsNothing broker (broker.getSession env now hdr.sessionId).1 :=
            .of_journal rfl
          exact asked.trans
            (sendLocalToClient_forwardsNothing (Zmsg.zero_not_mem_unwrap msg) sent)

theorem runKnown_forwardsNothing {input : ClientInput} {extraction : Extraction}
    {sender : ByteString} {msg : Zmsg}
    (ran : broker.runKnown env input extraction sender msg = some next) :
    ForwardsNothing broker next := by
  rw [runKnown] at ran
  split at ran
  next =>
    simp only [Option.bind_eq_bind, Option.bind_eq_some_iff, Prod.exists] at ran
    obtain ⟨_, _, acted, sent⟩ := ran
    have asked : ForwardsNothing broker
        (broker.getSession env input.session extraction.hdr.sessionId).1 := .of_journal rfl
    exact asked.trans ((doActs_forwardsNothing acted).trans
      (sendLocalToClient_forwardsNothing (Zmsg.zero_not_mem_unwrap msg) sent))
  next =>
    obtain rfl := Option.some.inj ran
    exact .of_journal rfl

/-- What a client asks for is answered by the broker itself or handed over. -/
theorem clientProcess_forwardsNothing {input : ClientInput} {sender : ByteString} {msg : Zmsg}
    {call : Option DispatchCall}
    (processed : broker.clientProcess env input sender msg = some (next, call)) :
    ForwardsNothing broker next := by
  simp only [clientProcess] at processed
  split at processed
  next => contradiction
  simp only [Option.bind_eq_bind, Option.bind_eq_some_iff, Prod.exists, Option.pure_def,
    Option.some.injEq] at processed
  obtain ⟨ended, rest, isEnded, ran, isRun, passed⟩ := processed
  have touches {hdr : Header} : ForwardsNothing ended (ended.touchSession env input.touch hdr) := by
    rw [touchSession]
    split <;> exact .of_journal rfl
  have ran := (endTry_forwardsNothing isEnded).trans
    (touches.trans (runKnown_forwardsNothing isRun))
  rw [passUnknown] at passed
  split at passed
  next =>
    obtain ⟨rfl, _⟩ := Prod.mk.inj passed
    exact ran.trans (forwardsNothing_record rfl)
  next =>
    obtain ⟨rfl, _⟩ := Prod.mk.inj passed
    exact ran

/-- The request that is handed over is made of what has been extracted from the message. -/
theorem clientProcess_call {input : ClientInput} {sender : ByteString} {msg : Zmsg}
    {call : Option DispatchCall}
    (processed : broker.clientProcess env input sender msg = some (next, call)) :
    call.bind DispatchCall.msg =
      if (extract env.library (cStr (msg.body.getD []))).1.unknown ≠ [] then
        some (workerRequest env (extract env.library (cStr (msg.body.getD []))).1 sender)
      else none := by
  simp only [clientProcess] at processed
  split at processed
  next => contradiction
  simp only [Option.bind_eq_bind, Option.bind_eq_some_iff, Prod.exists, Option.pure_def,
    Option.some.injEq] at processed
  obtain ⟨_, _, _, ran, _, passed⟩ := processed
  rw [passUnknown] at passed
  split at passed
  next some =>
    obtain ⟨_, rfl⟩ := Prod.mk.inj passed
    rw [if_pos some, Option.bind_some]
  next none =>
    obtain ⟨_, rfl⟩ := Prod.mk.inj passed
    rw [if_neg none, Option.bind_none]

/-! ## Messages of workers -/

theorem workerDelete_forwardsNothing {worker : Worker} {sendDisconnect : Bool}
    {call : Option DispatchCall}
    (deleted : (do return (← broker.workerDelete worker sendDisconnect, none)) =
      some (next, call)) : ForwardsNothing broker next := by
  cases sendDisconnect with
  | false =>
      obtain ⟨rfl, _⟩ := Prod.mk.inj (Option.some.inj deleted)
      exact .of_journal rfl
  | true =>
      simp only [workerDelete, if_true, Option.bind_eq_bind, Option.bind_eq_some_iff,
        Option.pure_def, Option.some.injEq, Prod.mk.injEq] at deleted
      obtain ⟨_, ⟨told, tells, rfl⟩, rfl, _⟩ := deleted
      obtain ⟨rfl, _⟩ := sendOn_spec tells
      exact ⟨[_], rfl, fun entry member => by rw [List.mem_singleton.mp member]; rfl⟩

/-- A command that makes the broker forward a reply. -/
def Forwards (broker : MessageBroker) (sender command client : ByteString) : Prop :=
  command = mdpwReply ∧ broker.workers.exists sender = true ∧ client ≠ []

/-- What the broker forwards of a message of a worker: the reply of one that it knows, to its
client. -/
theorem workerProcess_forwards {clock : WorkerClock} {sender part : ByteString}
    {rest : List ByteString} {call : Option DispatchCall}
    (processed : broker.workerProcess clock sender ⟨part :: rest⟩ = some (next, call)) :
    (Forwards broker sender (cStr part) (Zmsg.unwrap ⟨rest⟩).1 → ∃ workers,
      next.journal = broker.journal ++ [.command sender (cStr part),
        .sent .external (clientReply (Zmsg.unwrap ⟨rest⟩).1 (Zmsg.unwrap ⟨rest⟩).2) workers]) ∧
    (¬ Forwards broker sender (cStr part) (Zmsg.unwrap ⟨rest⟩).1 →
      ForwardsNothing broker next) := by
  have enough : ¬ Zmsg.parts ⟨part :: rest⟩ < 1 := by simp [Zmsg.parts]
  simp only [workerProcess, if_neg enough, Zmsg.popFront_cons, Option.bind_eq_bind,
    Option.bind_eq_some_iff, Prod.exists] at processed
  obtain ⟨required, worker, isRequired, processed⟩ := processed
  obtain ⟨_, _, workers, rfl, _⟩ := workerRequire_spec isRequired
  have noted : ForwardsNothing broker
      { broker.record (.command sender (cStr part)) with workers := workers } :=
    ⟨[_], rfl, by simp [Traffic.forwarded]⟩
  have quietly (quiet : ForwardsNothing
      { broker.record (.command sender (cStr part)) with workers := workers } next)
      (notForwards : ¬ Forwards broker sender (cStr part) (Zmsg.unwrap ⟨rest⟩).1) :
      (Forwards broker sender (cStr part) (Zmsg.unwrap ⟨rest⟩).1 → ∃ workers,
        next.journal = broker.journal ++ [.command sender (cStr part),
          .sent .external (clientReply (Zmsg.unwrap ⟨rest⟩).1 (Zmsg.unwrap ⟨rest⟩).2) workers]) ∧
      (¬ Forwards broker sender (cStr part) (Zmsg.unwrap ⟨rest⟩).1 →
        ForwardsNothing broker next) :=
    ⟨fun forwards => absurd forwards notForwards, fun _ => noted.trans quiet⟩
  rw [processCommand] at processed
  by_cases isReply : cStr part = mdpwReply
  · have notReady : ¬ mdpwReply = mdpwReady := by decide
    simp only [isReply, notReady, if_false, if_true] at processed ⊢ quietly
    split at processed
    next registered =>
      by_cases unnamed : (Zmsg.unwrap ⟨rest⟩).1 = []
      · have journal := (forwardReply_spec processed).2.2.2.2.2
        rw [if_pos unnamed, List.append_nil] at journal
        exact quietly (.of_journal journal) fun forwards => forwards.2.2 unnamed
      · have journal := (forwardReply_spec processed).2.2.2.2.2
        rw [if_neg unnamed] at journal
        exact ⟨fun _ => ⟨_, journal.trans (List.append_assoc _ _ _)⟩,
          fun notForwards => absurd ⟨rfl, registered, unnamed⟩ notForwards⟩
    next unknown =>
      exact quietly (workerDelete_forwardsNothing processed) fun forwards => unknown forwards.2.1
  · refine quietly ?_ fun forwards => isReply forwards.1
    rw [if_neg isReply] at processed
    split at processed
    next =>
      split at processed
      next => exact workerDelete_forwardsNothing processed
      next =>
        obtain ⟨_, _, rfl, _⟩ := workerWaiting_spec processed
        exact .of_journal rfl
    split at processed
    next =>
      split at processed
      next =>
        simp only [Option.bind_eq_bind, Option.bind_eq_some_iff, Prod.exists, Option.pure_def,
          Option.some.injEq, Prod.mk.injEq] at processed
        obtain ⟨_, _, _, rfl, _⟩ := processed
        exact .of_journal rfl
      next => exact workerDelete_forwardsNothing processed
    split at processed
    next => exact workerDelete_forwardsNothing processed
    next =>
      obtain ⟨rfl, _⟩ := Prod.mk.inj (Option.some.inj processed)
      exact .of_journal rfl

/-! ## Events -/

/-- Only messages of workers are forwarded. -/
theorem handle_forwardsNothing {event : BrokerEvent} {call : Option DispatchCall}
    (notWorker : ∀ frames clock, event ≠ .worker frames clock)
    (handled : broker.handle env event = some (next, call)) : ForwardsNothing broker next := by
  cases event with
  | worker frames clock => exact absurd rfl (notWorker frames clock)
  | client frames input =>
      rcases handleMessage_cases handled with ⟨_, _, _, _, _, _, processed⟩ | ⟨_, rfl, rfl⟩
      · exact clientProcess_forwardsNothing processed
      · exact .of_journal rfl
  | timer now =>
      simp only [handle, onTimer, purgeWorkers_eq, Option.bind_eq_bind, Option.bind_some,
        Option.bind_eq_some_iff, Option.pure_def, Option.some.injEq, Prod.mk.injEq] at handled
      obtain ⟨_, beaten, rfl, _⟩ := handled
      obtain ⟨sent, rfl, are⟩ := foldlM_workerSend beaten
      refine ⟨sent, rfl, fun entry member => ?_⟩
      obtain ⟨_, _, rfl⟩ := are entry member
      rfl
  | segment sessions =>
      obtain ⟨rfl, _⟩ := Prod.mk.inj (Option.some.inj handled)
      exact .of_journal rfl

/-- A dispatch forwards nothing. -/
theorem dispatch_forwardsNothing {now : Int} {call : DispatchCall}
    (dispatched : broker.serviceDispatch now call = some next) : ForwardsNothing broker next := by
  obtain ⟨requests, journal, areRequests⟩ := dispatch_journal dispatched
  refine ⟨requests, journal, fun entry member => ?_⟩
  obtain ⟨_, _, _, rfl⟩ := areRequests entry member
  rfl

/-- A client's message, as a router socket hands it to the broker: the address of the sender
and the body. -/
def clientBody (frames : List ByteString) : Option (ByteString × ByteString) :=
  match (Zmsg.recv frames).partData with
  | sender :: _ :: header :: rest =>
      if cStr header = mdpcClient then some (cStr sender, cStr ((Zmsg.mk rest).body.getD []))
      else none
  | _ => none

/-- The request that an event hands over, if any. -/
def handedBy (env : Environment) : BrokerEvent → Option Zmsg
  | .client frames _ =>
      (clientBody frames).bind fun (sender, mstr) =>
        let extraction := (extract env.library mstr).1
        if extraction.unknown ≠ [] then some (workerRequest env extraction sender) else none
  | .worker .. | .timer _ | .segment _ => none

/-- Entries that hand nothing over leave the requests that have been handed over. -/
theorem handedMsgs_append {sent : List Traffic} (journal : next.journal = broker.journal ++ sent)
    (silent : ∀ entry ∈ sent, entry.handedMsg = none) : next.handedMsgs = broker.handedMsgs := by
  have none : sent.filterMap Traffic.handedMsg = [] := List.filterMap_eq_nil_iff.mpr silent
  rw [handedMsgs, journal, List.filterMap_append, none, List.append_nil, handedMsgs]

/-- What is handed over is what `client_process` makes of the messages of clients. -/
theorem step_handed {event : BrokerEvent} (stepped : broker.step env event = some next) :
    next.handedMsgs = broker.handedMsgs ++ (handedBy env event).toList := by
  obtain ⟨handled, call, isHandled, rest⟩ := step_cases stepped
  have dispatched : next.handedMsgs = handled.handedMsgs := by
    rcases rest with ⟨_, rfl⟩ | ⟨made, _, dispatched⟩
    · rfl
    · obtain ⟨requests, journal, areRequests⟩ := dispatch_journal dispatched
      refine handedMsgs_append journal fun entry member => ?_
      obtain ⟨_, _, _, rfl⟩ := areRequests entry member
      rfl
  rw [dispatched]
  cases event with
  | worker frames clock =>
      rw [handedBy, Option.toList_none, List.append_nil]
      cases parsed : workerCommand frames with
      | none =>
          obtain ⟨rfl, _⟩ := handle_worker_ignored parsed isHandled
          rfl
      | some command =>
          obtain ⟨sent, journal, others⟩ := (handle_worker_command parsed isHandled).journal
          refine handedMsgs_append journal fun entry isIn => ?_
          cases List.mem_cons.mp isIn with
          | inl isCommand => rw [isCommand]; rfl
          | inr other => exact (others entry other).silent.2
  | timer now =>
      obtain ⟨_, sent, rfl, others⟩ := handle_timer isHandled
      rw [handedBy, Option.toList_none, List.append_nil]
      exact handedMsgs_append rfl fun entry isIn => (others entry isIn).silent.2
  | segment sessions =>
      obtain ⟨rfl, _⟩ := Prod.mk.inj (Option.some.inj isHandled)
      rw [handedBy, Option.toList_none, List.append_nil]
      rfl
  | client frames input =>
      obtain ⟨sent, journal, others⟩ := (handle_client isHandled).others
      have silent : sent.filterMap Traffic.handedMsg = [] :=
        List.filterMap_eq_nil_iff.mpr fun entry isIn => (others entry isIn).silent.2
      have whole (msgs : List Zmsg) : (msgs.map Traffic.handed).filterMap Traffic.handedMsg =
          msgs := by
        rw [List.filterMap_map]
        exact List.filterMap_some
      rw [handedMsgs, journal, List.filterMap_append, List.filterMap_append, silent,
        List.append_nil, whole]
      congr 2
      rw [handedBy, clientBody]
      rcases handleMessage_cases isHandled with ⟨sender, _, header, rest, parts, isClient,
        processed⟩ | ⟨foreign, _, rfl⟩
      · rw [parts]
        simp only [isClient, if_true, Option.bind_some]
        exact clientProcess_call processed
      · rw [Option.bind_none]
        split
        next sender delimiter header rest parts =>
          rw [if_neg (foreign _ _ _ _ parts), Option.bind_none]
        next => rfl

/-- The bodies of the replies of workers that have gone out to a client. -/
def repliesTo (client : ByteString) (broker : MessageBroker) : List ByteString :=
  broker.journal.filterMap fun entry =>
    entry.forwarded.bind fun reply => if reply.1 = client then some reply.2 else none

theorem ForwardsNothing.repliesTo (nothing : ForwardsNothing broker next)
    (client : ByteString) : next.repliesTo client = broker.repliesTo client := by
  obtain ⟨sent, journal, none⟩ := nothing
  have silent : sent.filterMap (fun entry => entry.forwarded.bind fun reply =>
      if reply.1 = client then some reply.2 else Option.none) = [] :=
    List.filterMap_eq_nil_iff.mpr fun entry member => by rw [none entry member, Option.bind_none]
  rw [MessageBroker.repliesTo, journal, List.filterMap_append, silent, List.append_nil]
  rfl

end MessageBroker

end Cdcm.Frontend
