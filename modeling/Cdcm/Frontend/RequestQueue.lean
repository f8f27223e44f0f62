import Cdcm.Frontend.BrokerRun

/-!
# The queue of requests

What clients hand to `service_dispatch` goes to workers in the same order, each
request once and with its frames unchanged; what has not gone yet is queued.
-/

namespace Cdcm.Frontend

open Json Protocol SessionsCache Zmq WorkerContainer Machine

namespace Traffic

/-- An entry that is no `REQUEST` and hands over nothing. -/
def Silent (entry : Traffic) : Prop :=
  entry.request = none ∧ entry.handedMsg = none

theorem Other.silent {entry : Traffic} (other : entry.Other) : entry.Silent := by
  obtain ⟨_, _, _, rfl, noRequest⟩ := other
  exact ⟨noRequest, rfl⟩

/-- A `REQUEST` as it stands on the wire: address, delimiter, version and command
in front of the frames of its payload. -/
def OnWire (entry : Traffic) (payload : Zmsg) : Prop :=
  ∃ msg workers address frames, entry = .sent .internal msg workers ∧
    msg.send = some (address :: [] :: mdpwWorker :: mdpwRequest :: frames) ∧
    payload.send = some frames

end Traffic

namespace MessageBroker

variable {env : Environment} {broker next : MessageBroker}

/-- The requests that `client_process` has handed to `service_dispatch`. -/
def handedMsgs (broker : MessageBroker) : List Zmsg :=
  broker.journal.filterMap Traffic.handedMsg

/-- The payloads of the `REQUEST`s on the internal socket. -/
def dispatchedMsgs (broker : MessageBroker) : List Zmsg :=
  broker.journal.filterMap fun entry => entry.request.map Prod.snd

/-- Every request handed over has been dispatched or is queued, in order. -/
structure Accounted (broker : MessageBroker) : Prop where
  balanced : broker.handedMsgs = broker.dispatchedMsgs ++ broker.requests.map Prod.fst
  shaped : ∀ msg ∈ broker.handedMsgs, ∃ client body, msg = ⟨[client, [], body]⟩
  framed : ∀ entry ∈ broker.journal, ∀ identity payload,
    entry.request = some (identity, payload) → entry.OnWire payload

/-- The request of a turn stands on the wire as the worker's payload. -/
theorem request_workerMessage (worker : Worker) (msg : Zmsg) (workers : WorkerContainer) :
    (Traffic.sent .internal (workerMessage worker mdpwRequest [] (some msg)) workers).request =
      some (cStr worker.identity, msg) := by
  have command : cStr mdpwRequest = mdpwRequest := by decide
  rw [workerMessage_eq, Traffic.request, command]
  exact if_pos ⟨rfl, rfl⟩

theorem onWire_workerMessage {worker : Worker} {msg : Zmsg} {workers : WorkerContainer}
    (framed : (workerMessage worker mdpwRequest [] (some msg)).send.isSome = true) :
    (Traffic.sent .internal (workerMessage worker mdpwRequest [] (some msg)) workers).OnWire
      msg := by
  have command : cStr mdpwRequest = mdpwRequest := by decide
  obtain ⟨frames, sends⟩ := Option.isSome_iff_exists.mp framed
  rw [workerMessage_eq, command] at sends
  obtain ⟨address, others, isAddress, afterAddress, rfl⟩ := Zmsg.send_cons.mp sends
  obtain ⟨_, afterDelimiter, rfl⟩ :=
    (Zmsg.send_cons_of_not_uuid (by decide)).mp afterAddress
  obtain ⟨_, afterVersion, rfl⟩ :=
    (Zmsg.send_cons_of_not_uuid (by decide)).mp afterDelimiter
  obtain ⟨rest, isRest, rfl⟩ := (Zmsg.send_cons_of_not_uuid (by decide)).mp afterVersion
  refine ⟨_, workers, address, rest, rfl, ?_, isRest⟩
  rw [workerMessage_eq, command]
  exact sends

/-- Silent entries leave the account as it is. -/
theorem Accounted.append (accounted : Accounted broker) {sent : List Traffic}
    (silent : ∀ entry ∈ sent, entry.Silent)
    (sameRequests : next.requests = broker.requests)
    (appended : next.journal = broker.journal ++ sent) : Accounted next := by
  have noneHanded : sent.filterMap Traffic.handedMsg = [] :=
    List.filterMap_eq_nil_iff.mpr fun entry member =>
      (silent entry member).2
  have noneDispatched : sent.filterMap (fun entry => entry.request.map Prod.snd) = [] :=
    List.filterMap_eq_nil_iff.mpr fun entry member => by
      rw [(silent entry member).1, Option.map_none]
  have handed : next.handedMsgs = broker.handedMsgs := by
    rw [handedMsgs, appended, List.filterMap_append, noneHanded, List.append_nil, handedMsgs]
  have dispatched : next.dispatchedMsgs = broker.dispatchedMsgs := by
    rw [dispatchedMsgs, appended, List.filterMap_append, noneDispatched, List.append_nil,
      dispatchedMsgs]
  refine ⟨?_, ?_, ?_⟩
  · rw [handed, dispatched, sameRequests, accounted.balanced]
  · rw [handed]
    exact accounted.shaped
  · intro entry member identity payload requested
    rw [appended] at member
    rcases List.mem_append.mp member with old | new
    · exact accounted.framed entry old identity payload requested
    · rw [(silent entry new).1] at requested
      contradiction

/-- A turn of the dispatch loop moves the front request from the queue to the
socket. -/
theorem Accounted.turn {id : ByteString} {front : Zmsg × ByteString}
    {rest : List (Zmsg × ByteString)} {worker : Worker} (accounted : Accounted broker)
    (queued : broker.requests = front :: rest)
    (turned : DispatchTurned broker id front rest worker next) : Accounted next := by
  have handed : next.handedMsgs = broker.handedMsgs := by
    rw [handedMsgs, turned.journal, List.filterMap_append]
    simp [handedMsgs, Traffic.handedMsg]
  have dispatched : next.dispatchedMsgs = broker.dispatchedMsgs ++ [front.1] := by
    rw [dispatchedMsgs, turned.journal, List.filterMap_append]
    simp [dispatchedMsgs, request_workerMessage]
  refine ⟨?_, ?_, ?_⟩
  · rw [handed, accounted.balanced, dispatched, queued, turned.requests]
    simp
  · rw [handed]
    exact accounted.shaped
  · intro entry member identity payload requested
    rw [turned.journal] at member
    rcases List.mem_append.mp member with old | new
    · exact accounted.framed entry old identity payload requested
    · obtain rfl := List.mem_singleton.mp new
      rw [request_workerMessage] at requested
      obtain ⟨_, rfl⟩ := Prod.mk.inj (Option.some.inj requested)
      exact onWire_workerMessage turned.framed

/-- A dispatch keeps the account, when the request it is called with has been
noted as handed over. -/
theorem Accounted.dispatch {now : Int} {call : DispatchCall}
    (accounted : Accounted (broker.enqueue call))
    (dispatched : broker.serviceDispatch now call = some next) : Accounted next := by
  have purged : Accounted (broker.purgedFor now call) :=
    ⟨accounted.balanced, accounted.shaped, accounted.framed⟩
  have result := serviceDispatch_invariant
    (fun pending state => state.requests = pending ∧ Accounted state)
    (fun front rest state turned worker ⟨queued, holds⟩ effect =>
      ⟨effect.requests, holds.turn queued effect⟩)
    (fun _ => ⟨rfl, purged⟩) dispatched
  rcases result with ⟨rfl, _⟩ | ⟨_, holds⟩
  · exact purged
  · exact holds

/-- A request that is noted as handed over and queued keeps the account. -/
theorem Accounted.handOver (accounted : Accounted broker) {msg : Zmsg} {id : ByteString}
    (shape : ∃ client body, msg = ⟨[client, [], body]⟩)
    (queued : next.requests = broker.requests ++ [(msg, id)])
    (noted : next.journal = broker.journal ++ [.handed msg]) : Accounted next := by
  have handed : next.handedMsgs = broker.handedMsgs ++ [msg] := by
    rw [handedMsgs, noted, List.filterMap_append]
    rfl
  have dispatched : next.dispatchedMsgs = broker.dispatchedMsgs := by
    rw [dispatchedMsgs, noted, List.filterMap_append]
    simp [dispatchedMsgs, Traffic.request]
  refine ⟨?_, ?_, ?_⟩
  · rw [handed, dispatched, queued, accounted.balanced]
    simp
  · rw [handed]
    intro other member
    rcases List.mem_append.mp member with old | new
    · exact accounted.shaped other old
    · exact List.mem_singleton.mp new ▸ shape
  · intro entry member identity payload requested
    rw [noted] at member
    rcases List.mem_append.mp member with old | new
    · exact accounted.framed entry old identity payload requested
    · obtain rfl := List.mem_singleton.mp new
      contradiction

/-- Handling a client message and queueing its request keeps the account. -/
theorem Accounted.client (accounted : Accounted broker) {sender : ByteString}
    {call : Option DispatchCall} (processed : ClientProcessed broker sender next call) :
    (call = none → Accounted next) ∧
      ∀ made, call = some made → Accounted (next.enqueue made) := by
  obtain ⟨sent, appended, others⟩ := processed.others
  have silent : ∀ entry ∈ sent, entry.Silent := fun entry member =>
    (others entry member).silent
  have answered : Accounted { next with journal := broker.journal ++ sent } :=
    accounted.append silent processed.requests rfl
  constructor
  · rintro rfl
    exact accounted.append silent processed.requests (by simpa using appended)
  · rintro made rfl
    obtain ⟨body, isMsg⟩ := processed.shape made rfl
    have noted : (next.enqueue made).journal =
        broker.journal ++ sent ++ [.handed ⟨[cStr sender, [], cStr body]⟩] := by
      rw [enqueue, isMsg, appended]
      simp [isMsg]
    have queued : (next.enqueue made).requests =
        next.requests ++ [(⟨[cStr sender, [], cStr body]⟩, made.id)] := by
      rw [enqueue, isMsg]
    exact answered.handOver ⟨_, _, rfl⟩ queued noted

/-- Every event keeps the account. -/
theorem Accounted.step {event : BrokerEvent} (accounted : Accounted broker)
    (stepped : broker.step env event = some next) : Accounted next := by
  obtain ⟨handled, call, isHandled, rest⟩ := step_cases stepped
  have kept : (call = none → Accounted handled) ∧
      ∀ made, call = some made → Accounted (handled.enqueue made) := by
    cases event with
    | worker frames clock =>
        cases parsed : workerCommand frames with
        | none =>
            obtain ⟨rfl, rfl⟩ := handle_worker_ignored parsed isHandled
            exact ⟨fun _ => accounted, nofun⟩
        | some command =>
            have processed := handle_worker_command parsed isHandled
            obtain ⟨sent, appended, others⟩ := processed.journal
            have silent : ∀ entry ∈ .command command.sender command.command :: sent,
                Traffic.Silent entry := by
              rintro entry (_ | ⟨_, member⟩)
              · exact ⟨rfl, rfl⟩
              · exact (others entry member).silent
            have holds : Accounted handled :=
              accounted.append silent processed.requests appended
            refine ⟨fun _ => holds, fun made called => ?_⟩
            rw [processed.call_eq] at called
            split at called
            · obtain rfl := Option.some.inj called
              exact holds
            · contradiction
    | client frames input =>
        have processed := handle_client isHandled
        exact accounted.client processed
    | timer now =>
        obtain ⟨rfl, sent, rfl, others⟩ := handle_timer isHandled
        have silent : ∀ entry ∈ sent, entry.Silent := fun entry member =>
          (others entry member).silent
        exact ⟨fun _ => accounted.append silent rfl rfl, nofun⟩
    | segment sessions =>
        obtain ⟨rfl, rfl⟩ := Prod.mk.inj (Option.some.inj isHandled)
        exact ⟨fun _ => ⟨accounted.balanced, accounted.shaped, accounted.framed⟩, nofun⟩
  rcases rest with ⟨none, rfl⟩ | ⟨made, isMade, dispatched⟩
  · exact kept.1 none
  · exact (kept.2 made isMade).dispatch dispatched

/-- In every run of the broker, the payloads of the `REQUEST`s on the internal
socket, followed by the queue, are the requests that clients handed over: in
order, none lost, repeated or altered. Each is a client, an empty frame and a
body, and goes over the wire as such. -/
theorem requests_in_order {heartbeatExpiry : Nat} {sessions : SharedMemSessionsCache}
    {events : List BrokerEvent}
    (run : Run (step env) Unguarded (new heartbeatExpiry sessions) events broker) :
    broker.handedMsgs = broker.dispatchedMsgs ++ broker.requests.map Prod.fst ∧
      (∀ msg ∈ broker.handedMsgs, ∃ client body, msg = ⟨[client, [], body]⟩) ∧
      ∀ entry ∈ broker.journal, ∀ identity payload,
        entry.request = some (identity, payload) → entry.OnWire payload := by
  have accounted : Accounted broker :=
    run.invariant Accounted ⟨rfl, by simp [handedMsgs, new], by simp [new]⟩
      fun _ _ _ holds _ stepped => holds.step stepped
  exact ⟨accounted.balanced, accounted.shaped, accounted.framed⟩

/-- Two clients and one worker: the first request is dispatched, the second is
queued. -/
theorem requests_in_order_ping :
    ∃ broker, Run (step (sampleEnv [sampleBody [pingAction "1"]])) Unguarded sampleBroker
        [workerSends "w1" mdpwReady [] 0, clientSends "c1" (sampleBody [pingAction "1"]) 1,
          clientSends "c2" (sampleBody [pingAction "1"]) 2] broker ∧
      (broker.dispatchedMsgs.length = 1 ∧ broker.requests.length = 1) ∧
      broker.handedMsgs = broker.dispatchedMsgs ++ broker.requests.map Prod.fst := by
  refine (Run.exists_of_exec (fun broker : MessageBroker =>
      decide (broker.dispatchedMsgs.length = 1 ∧ broker.requests.length = 1))
    (by decide +kernel)).imp fun broker ⟨run, counted⟩ =>
      ⟨run, of_decide_eq_true counted, ?_⟩
  exact (requests_in_order run).1

end MessageBroker

end Cdcm.Frontend
