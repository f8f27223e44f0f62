import Cdcm.System.Parcels

/-!
# Delivery

Every action that a client asks for and the broker does not execute itself is handed to a
worker, and its result comes back in a reply.  Over all interleavings of the broker, the
workers and their connections, a client gets replies to what it has asked for only, and to
none of it twice.  An action is lost where its worker cannot account for it, or where the
broker does not know the worker any more when it reads the reply; without such steps, what
has no reply yet is in the queue, on its way, or with a worker.
-/

namespace Cdcm.System

open Json Protocol Zmq Backend Frontend SessionsCache Machine

/-! ## Where the actions of a client are -/

section Places

variable (library : Library) (client : ByteString)

/-- What a client has asked for and the broker has handed to the dispatch. -/
def handedFor (broker : MessageBroker) : Multiset Asked :=
  (broker.handedMsgs.map fun msg => askedFor library client msg.unwrap).sum

/-- What has gone out to workers. -/
def dispatchedFor (broker : MessageBroker) : Multiset Asked :=
  (broker.dispatchedMsgs.map fun msg => askedFor library client msg.unwrap).sum

/-- What is queued. -/
def queuedFor (broker : MessageBroker) : Multiset Asked :=
  (broker.requests.map fun request => askedFor library client request.1.unwrap).sum

/-- What a process serves or has postponed. -/
def processFor (process : MessageWorker) : Multiset Asked :=
  forClient client (process.pending + process.inService library)

/-- What the replies on a channel answer. -/
def carriedFor (answers : List (Option Answered)) : Multiset Asked :=
  (answers.map (answeredFor client)).sum

/-- What is underway to a worker, with it, or on its way back. -/
def Network.held (net : Network) (carried : ByteString → List (Option Answered))
    (peer : ByteString) : Multiset Asked :=
  wiresFor library client (net.toWorker peer) +
    (net.processes peer).elim 0 (processFor library client) + carriedFor client (carried peer)

end Places

/-- The actions that replies answer. -/
def answeredBy (delivered : List Answered) : Multiset Asked := (delivered.map Answered.asked).sum

/-! ## The invariant -/

/-- What holds of the network between its steps, seen from one client: the replies that it
has got, those that are on their way, what is underway altogether, and what has been lost. -/
structure Conserved (workerEnv : WorkerEnvironment) (client : ByteString) (net : Network)
    (delivered : List Answered) (carried : ByteString → List (Option Answered))
    (total lost : Multiset Asked) : Prop where
  accounted : net.broker.Accounted
  framed : ∀ msg ∈ net.broker.handedMsgs, Framed msg
  steady : ∀ peer process, net.processes peer = some process → process.Steady workerEnv
  carries : ∀ peer, List.Forall₂ (Parcel workerEnv) (net.toBroker peer) (carried peer)
  delivers : List.Forall₂ (Delivers workerEnv client) (net.broker.repliesTo client) delivered
  holds : Ledger.Holds (net.held workerEnv.library client carried) total
  balanced : dispatchedFor workerEnv.library client net.broker =
    answeredBy delivered + total + lost

section Conservation

variable {env : Environment} {workerEnv : WorkerEnvironment} {client : ByteString}
  {net next : Network} {delivered : List Answered}
  {carried : ByteString → List (Option Answered)} {total lost : Multiset Asked}

@[simp] theorem carriedFor_nil : carriedFor client [] = 0 := rfl

@[simp] theorem carriedFor_cons (head : Option Answered) (rest : List (Option Answered)) :
    carriedFor client (head :: rest) = answeredFor client head + carriedFor client rest :=
  List.sum_cons

@[simp] theorem carriedFor_append (front back : List (Option Answered)) :
    carriedFor client (front ++ back) = carriedFor client front + carriedFor client back := by
  rw [carriedFor, List.map_append, List.sum_append, carriedFor, carriedFor]

/-- What a worker sends answers what it says. -/
theorem carriedFor_answered (sents : List Sent) :
    carriedFor client (sents.map Sent.answered) =
      forClient client (sents.map Sent.asked).sum := by
  rw [forClient_sum, carriedFor, List.map_map, List.map_map]
  congr 1
  refine List.map_congr_left fun sent _ => ?_
  simp only [Function.comp_apply, answeredFor, Sent.asked]
  cases sent.answered with
  | none => simp
  | some answered => rfl

/-- What has been handed over has been dispatched or is queued. -/
theorem handedFor_eq {library : Library} {broker : MessageBroker}
    (accounted : broker.Accounted) : handedFor library client broker =
      dispatchedFor library client broker + queuedFor library client broker := by
  rw [handedFor, accounted.balanced, List.map_append, List.sum_append, List.map_map]
  rfl

theorem conserved_new (heartbeatExpiry : Nat) (sessions : SharedMemSessionsCache) :
    Conserved workerEnv client (.new heartbeatExpiry sessions) [] (fun _ => []) 0 0 where
  accounted := ⟨rfl, by simp [Network.new, MessageBroker.handedMsgs, MessageBroker.new],
    by simp [Network.new, MessageBroker.new]⟩
  framed := by simp [Network.new, MessageBroker.handedMsgs, MessageBroker.new]
  steady peer process isProcess := by simp [Network.new] at isProcess
  carries _ := .nil
  delivers := .nil
  holds := Ledger.holds_zero.of_same fun peer => by
    simp [Network.held, Network.new]
  balanced := rfl

/-! ## Steps of the processes -/

/-- What a step takes from its channel. -/
theorem arrives_wiresFor {library : Library} {peer : ByteString} {event : WorkerEvent}
    {arrived : Channels} (arrives : net.arrives peer event = some arrived) :
    (∀ other, other ≠ peer → arrived other = net.toWorker other) ∧
      wiresFor library client (net.toWorker peer) =
        forClient client (event.asked library) + wiresFor library client (arrived peer) := by
  cases event with
  | retry | serve =>
      obtain rfl := Option.some.inj arrives
      exact ⟨fun _ _ => rfl, by simp [WorkerEvent.asked]⟩
  | poll input =>
      refine ⟨(Network.arrives_spec arrives).1, ?_⟩
      obtain ⟨frames, identity, connect, beat, handle⟩ := input
      cases frames with
      | none =>
          obtain rfl := Option.some.inj arrives
          simp [WorkerEvent.asked]
      | some frames =>
          simp only [Network.arrives] at arrives
          split at arrives
          next isHead =>
            obtain rfl := Option.some.inj arrives
            obtain ⟨rest, whole⟩ := List.head?_eq_some_iff.mp isHead
            rw [Channels.pop, Function.update_self, whole, List.tail_cons, wiresFor,
              List.map_cons, List.sum_cons, WorkerEvent.asked, Option.bind_some, wireFor]
            cases requestOf frames with
            | none => simp [wiresFor]
            | some read => simp [wiresFor]
          next => contradiction

/-- A step of a process: what it holds and takes goes out, stays with it or is lost. -/
theorem Conserved.processStep {peer : ByteString} {event : WorkerEvent}
    (conserved : Conserved workerEnv client net delivered carried total lost)
    (prints : workerEnv.library.Prints)
    (sets : ∀ process ∈ net.processes peer, process.SetsResults workerEnv event)
    (stepped : net.processStep workerEnv peer event = some next) :
    ∃ carried total more, Conserved workerEnv client next delivered carried total (lost + more) ∧
      ((∀ process ∈ net.processes peer, process.Accountable workerEnv event) → more = 0) := by
  simp only [Network.processStep, Option.bind_eq_bind, Option.bind_eq_some_iff] at stepped
  obtain ⟨process, isProcess, arrived, arrives, moving, isMoving, stepped⟩ := stepped
  split at stepped
  next => contradiction
  next notTaken =>
  obtain rfl := Option.some.inj stepped
  obtain ⟨steady, sents, lostHere, conserves, kept⟩ :=
    (conserved.steady peer process isProcess).step (sets process isProcess) isMoving
  obtain ⟨otherWires, taken⟩ := @arrives_wiresFor client net workerEnv.library _ _ _ arrives
  have journal := conserves.journal
  set place := moving.identity with isPlace
  have moves : { net with toWorker := arrived }.moved peer process.journal moving =
      { net with
        processes := Function.update (Function.update net.processes peer none) place (some moving)
        toBroker := Function.update net.toBroker place (net.toBroker place ++ wiresOf sents)
        toWorker := arrived } := by
    rw [Network.moved, journal, List.drop_left, foldl_post conserves.identity]
  -- the process leaves its place with the messages that it takes, and appears at the other one
  let left : Network := { net with
    toWorker := arrived, processes := Function.update net.processes peer none }
  obtain ⟨rest, whole, leaves⟩ := conserved.holds.change
    (left.held workerEnv.library client carried) peer fun other different => by
      simp only [left, Network.held, otherWires other different, Function.update_of_ne different]
  have free : left.processes place = none := by
    by_cases same : place = peer
    · simp only [left, same, Function.update_self]
    · simp only [left, Function.update_of_ne same]
      simpa [same] using notTaken
  let carried' := Function.update carried place (carried place ++ sents.map Sent.answered)
  obtain ⟨rest', whole', joins⟩ := leaves.change
    (({ net with toWorker := arrived }.moved peer process.journal moving).held
      workerEnv.library client carried') place fun other different => by
      simp only [moves, left, carried', Network.held, Function.update_of_ne different]
  refine ⟨carried', _, forClient client lostHere, ⟨conserved.accounted, conserved.framed, ?_, ?_,
    conserved.delivers, joins, ?_⟩, fun accountable => by rw [kept (accountable process isProcess),
      forClient_zero]⟩
  · intro other found isFound
    rw [moves] at isFound
    by_cases atPlace : other = place
    · simp only [atPlace, Function.update_self, Option.some.injEq] at isFound
      exact isFound ▸ steady
    · simp only [Function.update_of_ne atPlace] at isFound
      by_cases atPeer : other = peer
      · simp [atPeer] at isFound
      · rw [Function.update_of_ne atPeer] at isFound
        exact conserved.steady other found isFound
  · intro other
    rw [moves]
    by_cases atPlace : other = place
    · simp only [carried', atPlace, Function.update_self]
      exact List.rel_append (conserved.carries place) (parcels_of_bears prints conserves.bears)
    · simp only [carried', Function.update_of_ne atPlace]
      exact conserved.carries other
  · have before : net.held workerEnv.library client carried peer =
        left.held workerEnv.library client carried peer + (forClient client
          (event.asked workerEnv.library) + processFor workerEnv.library client process) := by
      simp only [Network.held, left, isProcess, taken, Function.update_self, Option.elim_some,
        Option.elim_none]
      abel
    have after : ({ net with toWorker := arrived }.moved peer process.journal moving).held
        workerEnv.library client carried' place = left.held workerEnv.library client carried place +
          (processFor workerEnv.library client moving +
            forClient client (sents.map Sent.asked).sum) := by
      rw [← carriedFor_answered, moves, Network.held, Network.held, free]
      simp only [left, carried', Function.update_self, Option.elim_some, Option.elim_none,
        carriedFor_append]
      abel
    have here := congrArg (forClient client) conserves.total
    simp only [forClient_add] at here
    have balance : forClient client (event.asked workerEnv.library) +
        processFor workerEnv.library client process =
          processFor workerEnv.library client moving +
            forClient client (sents.map Sent.asked).sum + forClient client lostHere := by
      simp only [processFor, forClient_add]
      rw [add_comm, ← here]
      abel
    refine conserved.balanced.trans ?_
    rw [after, whole, before, balance]
    calc answeredBy delivered + (left.held workerEnv.library client carried peer +
          (processFor workerEnv.library client moving +
            forClient client (sents.map Sent.asked).sum + forClient client lostHere) + rest) + lost
        = answeredBy delivered + (left.held workerEnv.library client carried peer + rest +
          (processFor workerEnv.library client moving +
            forClient client (sents.map Sent.asked).sum)) + (lost + forClient client lostHere) := by
          abel
      _ = _ := by
          rw [whole']
          abel

/-- A process starts: nothing is underway to or from it that was not before. -/
theorem Conserved.start {peer : ByteString} {connect handle : Int} {process : MessageWorker}
    (conserved : Conserved workerEnv client net delivered carried total lost)
    (free : net.processes peer = none)
    (started : MessageWorker.start workerEnv peer connect handle = some process) :
    ∃ carried, Conserved workerEnv client (net.moved peer [] process) delivered carried total
      lost := by
  obtain ⟨steady, pending, inService, rfl, journal⟩ := MessageWorker.steady_start started
  set peer := process.identity
  have ready : List.Forall₂ (Parcel workerEnv)
      (wiresOf [MessageWorker.bare peer mdpwReady]) [none] :=
    .cons ⟨mdpwReady, by simp, rfl⟩ .nil
  have moves : net.moved peer [] process = { net with
      processes := Function.update net.processes peer (some process)
      toBroker := Function.update net.toBroker peer
        (net.toBroker peer ++ wiresOf [MessageWorker.bare peer mdpwReady]) } := by
    have own : ∀ sent ∈ [MessageWorker.bare peer mdpwReady], sent.identity = peer :=
      fun sent member => by rw [List.mem_singleton.mp member]; rfl
    rw [Network.moved, journal, List.length_nil, List.drop_zero, foldl_post own,
      Function.update_idem]
  refine ⟨Function.update carried peer (carried peer ++ [none]), conserved.accounted,
    conserved.framed, ?_, ?_, conserved.delivers, ?_, conserved.balanced⟩
  · intro other found isFound
    rw [moves] at isFound
    by_cases same : other = peer
    · simp only [same, Function.update_self, Option.some.injEq] at isFound
      exact isFound ▸ steady
    · simp only [Function.update_of_ne same] at isFound
      exact conserved.steady other found isFound
  · intro other
    rw [moves]
    by_cases same : other = peer
    · simp only [same, Function.update_self]
      exact List.rel_append (conserved.carries peer) ready
    · simp only [Function.update_of_ne same]
      exact conserved.carries other
  · refine conserved.holds.of_same fun other => ?_
    rw [moves]
    by_cases same : other = peer
    · have nothing : processFor workerEnv.library client process = 0 := by
        rw [processFor, pending, inService, add_zero, forClient_zero]
      simp [Network.held, same, free, nothing, answeredFor]
    · simp only [Network.held, Function.update_of_ne same]

/-! ## Steps of the broker -/

/-- What the requests among some entries ask for. -/
theorem sum_entryFor {library : Library} (entries : List Traffic) :
    (entries.map (entryFor library client)).sum =
      ((entries.filterMap fun entry => entry.request.map Prod.snd).map fun msg =>
        askedFor library client msg.unwrap).sum := by
  induction entries with
  | nil => rfl
  | cons head rest ih =>
      rw [List.map_cons, List.sum_cons, ih, List.filterMap_cons, entryFor]
      cases head.request with
      | none => exact zero_add _
      | some target => rfl

/-- What the broker sends arrives at the places that it sends it to. -/
theorem holds_routes {library : Library} {handed : List Zmsg} {entries : List Traffic}
    (others : ByteString → Multiset Asked) {channels : Channels} (plain : Plain client)
    (framed : ∀ msg ∈ handed, Framed msg) (routes : ∀ entry ∈ entries, Routes handed entry)
    (holds : Ledger.Holds (fun peer => wiresFor library client (channels peer) + others peer)
      total) :
    Ledger.Holds (fun peer => wiresFor library client (entries.foldl Channels.route channels peer) +
      others peer) (total + (entries.map (entryFor library client)).sum) := by
  induction entries generalizing channels total with
  | nil =>
      rw [List.map_nil, List.sum_nil, add_zero]
      exact holds
  | cons head rest ih =>
      obtain ⟨place, here, elsewhere⟩ :=
        @wiresFor_route library client channels plain _ framed head (routes head List.mem_cons_self)
      rw [List.map_cons, List.sum_cons, ← add_assoc]
      refine ih (fun entry member => routes entry (List.mem_cons_of_mem _ member)) ?_
      refine holds.add place (entryFor library client head) ?_ fun other different => ?_
      · rw [here, add_right_comm]
      · rw [elsewhere other different]

/-- What a step of the broker does to the network. -/
theorem brokerStep_spec {event : NetworkEvent} (accounted : net.broker.Accounted)
    (stepped : net.brokerStep env event = some next) :
    ∃ brokerEvent handled call, net.brokerEvent event = some brokerEvent ∧
      net.broker.handle env brokerEvent = some (handled, call) ∧
      net.broker.step env brokerEvent = some next.broker ∧
      MessageBroker.ForwardsNothing handled next.broker ∧
      next.processes = net.processes ∧ next.toBroker = (net.received event).toBroker ∧
      ∃ entries, next.broker.journal = net.broker.journal ++ entries ∧
        next.toWorker = entries.foldl Channels.route net.toWorker ∧
        ∀ entry ∈ entries, Routes next.broker.handedMsgs entry := by
  have sameWires : (net.received event).toWorker = net.toWorker := by cases event <;> rfl
  have sameBroker : (net.received event).broker = net.broker := by cases event <;> rfl
  have sameProcesses : (net.received event).processes = net.processes := by cases event <;> rfl
  simp only [Network.brokerStep, Option.bind_eq_bind, Option.bind_eq_some_iff, Prod.exists]
    at stepped
  obtain ⟨brokerEvent, isEvent, behind, call, heard, stepped⟩ := stepped
  simp only [Network.heard, Option.bind_eq_bind, Option.bind_eq_some_iff, Prod.exists,
    Option.pure_def, Option.some.injEq, Prod.mk.injEq] at heard
  obtain ⟨sameEvent, isSame, handled, handledCall, isHandled, rfl, rfl⟩ := heard
  obtain rfl := Option.some.inj (isEvent.symm.trans isSame)
  obtain ⟨told, journal, tells⟩ := MessageBroker.handle_tells isHandled
  have onWire : (handled.journal.drop net.broker.journal.length).foldl Channels.route
      net.toWorker = told.foldl Channels.route net.toWorker := by
    rw [journal, List.drop_left]
  refine ⟨brokerEvent, handled, handledCall, isEvent, isHandled, ?_⟩
  cases handledCall with
  | none =>
      obtain rfl := Option.some.inj stepped
      have isStep : net.broker.step env brokerEvent = some handled := by
        simp only [MessageBroker.step, isHandled, Option.bind_eq_bind, Option.bind_some]
      refine ⟨isStep, .of_journal rfl, sameProcesses, rfl, told, journal, ?_,
        fun entry member => .inl (tells entry member)⟩
      simp only [Network.advance, sameWires, sameBroker]
      exact onWire
  | some call =>
      simp only [Option.bind_eq_some_iff, Option.pure_def, Option.some.injEq] at stepped
      obtain ⟨broker, dispatched, rfl⟩ := stepped
      have isStep : net.broker.step env brokerEvent = some broker := by
        simp only [MessageBroker.step, isHandled, Option.bind_eq_bind, Option.bind_some]
        exact dispatched
      obtain ⟨requests, longer, areRequests⟩ := MessageBroker.dispatch_journal dispatched
      refine ⟨isStep, MessageBroker.dispatch_forwardsNothing dispatched, sameProcesses, rfl,
        told ++ requests, ?_, ?_, ?_⟩
      · exact longer.trans (by rw [← List.append_assoc, ← journal]; rfl)
      · simp only [Network.advance, sameWires, sameBroker, onWire, longer, List.drop_left,
          List.foldl_append]
      · intro entry member
        cases List.mem_append.mp member with
        | inl command => exact .inl (tells entry command)
        | inr request =>
            -- what goes out as a request has been handed over, and is framed
            obtain ⟨worker, payload, workers, rfl⟩ := areRequests entry request
            have after := accounted.step isStep
            have isRequest := MessageBroker.request_workerMessage worker payload workers
            have isNoted : Traffic.sent .internal (MessageBroker.workerMessage worker mdpwRequest []
                (some payload)) workers ∈ broker.journal :=
              longer.symm ▸ List.mem_append_right _ request
            have isDispatched : payload ∈ broker.dispatchedMsgs :=
              List.mem_filterMap.mpr ⟨_, isNoted, by rw [isRequest, Option.map_some]⟩
            obtain ⟨_, _, _, _, same, sends, _⟩ := after.framed _ isNoted _ _ isRequest
            obtain ⟨_, rfl, _⟩ := Traffic.sent.inj same
            refine .inr ⟨worker, payload, workers, ?_, by rw [sends]; rfl, rfl⟩
            exact after.balanced.symm ▸ List.mem_append_left _ isDispatched

/-- The broker knows the worker whose reply it reads. -/
def Network.KnowsReplier (net : Network) : NetworkEvent → Prop
  | .deliver peer _ => ∀ wire ∈ (net.toBroker peer).head?, isReply peer wire = true →
      net.broker.workers.exists (peerAddress peer) = true
  | _ => True

/-- Results are a reply, as the broker reads them. -/
theorem isReply_of_parcel {peer : ByteString} {wire : List ByteString} {answered : Answered}
    (prints : workerEnv.library.Prints) (parcel : Parcel workerEnv wire (some answered)) :
    isReply peer wire = true := by
  obtain ⟨frame, body, _, _, printed, _, rfl⟩ := parcel
  have version : cStr mdpwWorker = mdpwWorker := by decide
  have command : cStr mdpwReply = mdpwReply := by decide
  rw [isReply, workerCommand, recv_reply (plain_of_isResponse prints ⟨_, printed⟩)]
  simp [version, command]

/-- What the broker receives goes to the client, if it is for it, or is lost. -/
theorem Conserved.received {event : NetworkEvent} {brokerEvent : BrokerEvent}
    {broker : MessageBroker} {call : Option DispatchCall}
    (conserved : Conserved workerEnv client net delivered carried total lost)
    (plain : Plain client) (prints : workerEnv.library.Prints)
    (isEvent : net.brokerEvent event = some brokerEvent)
    (handled : net.broker.handle env brokerEvent = some (broker, call)) :
    ∃ delivered' carried' rest more,
      List.Forall₂ (Delivers workerEnv client) (broker.repliesTo client) delivered' ∧
      (∀ peer, List.Forall₂ (Parcel workerEnv) ((net.received event).toBroker peer)
        (carried' peer)) ∧
      Ledger.Holds (net.held workerEnv.library client carried') rest ∧
      answeredBy delivered + total = answeredBy delivered' + rest + more ∧
      (net.KnowsReplier event → more = 0) := by
  have quietly (same : (net.received event).toBroker = net.toBroker)
      (nothing : MessageBroker.ForwardsNothing net.broker broker) :
      ∃ delivered' carried' rest more,
        List.Forall₂ (Delivers workerEnv client) (broker.repliesTo client) delivered' ∧
        (∀ peer, List.Forall₂ (Parcel workerEnv) ((net.received event).toBroker peer)
          (carried' peer)) ∧
        Ledger.Holds (net.held workerEnv.library client carried') rest ∧
        answeredBy delivered + total = answeredBy delivered' + rest + more ∧
        (net.KnowsReplier event → more = 0) := by
    refine ⟨delivered, carried, total, 0, ?_, ?_, conserved.holds, (add_zero _).symm,
      fun _ => rfl⟩
    · rw [nothing.repliesTo]
      exact conserved.delivers
    · rw [same]
      exact conserved.carries
  cases event with
  | start | process => contradiction
  | client frames input =>
      obtain rfl := Option.some.inj isEvent
      exact quietly rfl (MessageBroker.handle_forwardsNothing (by simp) handled)
  | timer now =>
      obtain rfl := Option.some.inj isEvent
      exact quietly rfl (MessageBroker.handle_forwardsNothing (by simp) handled)
  | segment sessions =>
      obtain rfl := Option.some.inj isEvent
      exact quietly rfl (MessageBroker.handle_forwardsNothing (by simp) handled)
  | deliver peer clock =>
      obtain ⟨wire, isHead, rfl⟩ := Option.map_eq_some_iff.mp isEvent
      obtain ⟨wires, whole⟩ := List.head?_eq_some_iff.mp isHead
      have carries := conserved.carries peer
      rw [whole] at carries
      generalize isCarried : carried peer = answers at carries
      cases carries with
      | @cons _ answered _ answers parcel carries =>
      let carried' := Function.update carried peer answers
      have popped : ∀ other, List.Forall₂ (Parcel workerEnv)
          ((net.received (.deliver peer clock)).toBroker other) (carried' other) := by
        intro other
        by_cases same : other = peer
        · simp only [Network.received, Channels.pop, carried', same, Function.update_self, whole,
            List.tail_cons]
          exact carries
        · simp only [Network.received, Channels.pop, carried', Function.update_of_ne same]
          exact conserved.carries other
      obtain ⟨rest, isTotal, holds⟩ := conserved.holds.change
        (net.held workerEnv.library client carried') peer fun other different => by
          simp only [Network.held, carried', Function.update_of_ne different]
      have before : net.held workerEnv.library client carried peer =
          net.held workerEnv.library client carried' peer + answeredFor client answered := by
        simp only [Network.held, carried', Function.update_self, isCarried, carriedFor_cons]
        abel
      rcases handle_parcel prints plain parcel handled with ⟨replies, known⟩ |
        ⟨results, body, rfl, delivers, replies⟩
      · refine ⟨delivered, carried', _, answeredFor client answered, ?_, popped, holds, ?_, ?_⟩
        · rw [replies]
          exact conserved.delivers
        · rw [isTotal, before]
          abel
        · intro knows
          cases answered with
          | none => rfl
          | some results => exact known (knows wire isHead (isReply_of_parcel prints parcel))
      · refine ⟨delivered ++ [results], carried', _, 0, ?_, popped, holds, ?_, fun _ => rfl⟩
        · rw [replies]
          exact List.rel_append conserved.delivers (.cons delivers .nil)
        · have asks : answeredFor client (some results) = results.asked := by
            rw [answeredFor, Option.elim_some, forClient_asked, if_pos delivers.addressed]
          rw [isTotal, before, asks, answeredBy, answeredBy, List.map_append, List.sum_append,
            List.map_singleton, List.sum_singleton]
          abel

/-- A step of the broker. -/
theorem Conserved.brokerStep {event : NetworkEvent}
    (conserved : Conserved workerEnv client net delivered carried total lost)
    (plain : Plain client) (prints : env.library.Prints) (workerPrints : workerEnv.library.Prints)
    (stepped : net.brokerStep env event = some next) :
    ∃ delivered carried total more,
      Conserved workerEnv client next delivered carried total (lost + more) ∧
        (net.KnowsReplier event → more = 0) := by
  obtain ⟨brokerEvent, handled, call, isEvent, isHandled, isStep, nothing, processes, toBroker,
    entries, journal, toWorker, routes⟩ := brokerStep_spec conserved.accounted stepped
  obtain ⟨delivered', carried', rest, more, delivers, carries, holds, balance, kept⟩ :=
    conserved.received plain workerPrints isEvent isHandled
  have framed : ∀ msg ∈ next.broker.handedMsgs, Framed msg := by
    intro msg member
    rw [MessageBroker.step_handed isStep, List.mem_append, Option.mem_toList] at member
    cases member with
    | inl old => exact conserved.framed msg old
    | inr new => exact framed_handedBy prints new
  refine ⟨delivered', carried', rest + (entries.map (entryFor workerEnv.library client)).sum, more,
    ⟨conserved.accounted.step isStep, framed, ?_, ?_, ?_, ?_, ?_⟩, kept⟩
  · rw [processes]
    exact conserved.steady
  · rw [toBroker]
    exact carries
  · rw [nothing.repliesTo]
    exact delivers
  · have moved := holds_routes (fun peer => (net.processes peer).elim 0
      (processFor workerEnv.library client) + carriedFor client (carried' peer)) plain framed routes
      (holds.of_same fun peer => by rw [Network.held, add_assoc])
    refine moved.of_same fun peer => ?_
    rw [Network.held, toWorker, processes, add_assoc]
  · have dispatched : dispatchedFor workerEnv.library client next.broker =
        dispatchedFor workerEnv.library client net.broker +
          (entries.map (entryFor workerEnv.library client)).sum := by
      rw [dispatchedFor, MessageBroker.dispatchedMsgs, journal, List.filterMap_append,
        List.map_append, List.sum_append, sum_entryFor]
      rfl
    rw [dispatched, conserved.balanced, balance]
    abel

end Conservation

/-! ## Runs -/

namespace Network

section Conditions

variable (workerEnv : WorkerEnvironment) (net : Network)

/-- The calls of the plugins in a step set their results. -/
def SetsResults : NetworkEvent → Prop
  | .process peer event =>
      ∀ process ∈ net.processes peer, process.SetsResults workerEnv event
  | _ => True

instance (event : NetworkEvent) : Decidable (net.SetsResults workerEnv event) :=
  match event with
  | .process peer event => inferInstanceAs (Decidable
      (∀ process ∈ net.processes peer, process.SetsResults workerEnv event))
  | .start .. | .deliver .. | .client .. | .timer _ | .segment _ =>
      inferInstanceAs (Decidable True)

instance (event : NetworkEvent) : Decidable (net.KnowsReplier event) :=
  match event with
  | .deliver peer _ => inferInstanceAs (Decidable (∀ wire ∈ (net.toBroker peer).head?,
      isReply peer wire = true → net.broker.workers.exists (peerAddress peer) = true))
  | .start .. | .process .. | .client .. | .timer _ | .segment _ =>
      inferInstanceAs (Decidable True)

/-- No action is lost in a step: the worker accounts for all actions of its request, and the
broker knows the worker whose reply it reads. -/
def Lossless : NetworkEvent → Prop
  | .process peer event =>
      ∀ process ∈ net.processes peer, process.Accountable workerEnv event
  | event => net.KnowsReplier event

instance (event : NetworkEvent) : Decidable (net.Lossless workerEnv event) :=
  match event with
  | .process peer event => inferInstanceAs (Decidable
      (∀ process ∈ net.processes peer, process.Accountable workerEnv event))
  | .deliver peer clock => inferInstanceAs (Decidable (net.KnowsReplier (.deliver peer clock)))
  | .start .. | .client .. | .timer _ | .segment _ => inferInstanceAs (Decidable True)

/-- Nothing is left to do: no request is queued or on its way, none is served or postponed,
and no reply is on its way. -/
def Quiet : Prop :=
  net.broker.requests = [] ∧ ∀ peer, requestsIn (net.toWorker peer) = 0 ∧
    repliesIn peer (net.toBroker peer) = 0 ∧ ∀ process ∈ net.processes peer,
      process.postponedActions.actions = 0 ∧ ∀ request, process.phase ≠ .serving request

end Conditions

end Network

section Runs

variable {env : Environment} {workerEnv : WorkerEnvironment} {client : ByteString}
  {net next : Network} {delivered : List Answered}
  {carried : ByteString → List (Option Answered)} {total lost : Multiset Asked}

/-- One step: what is lost in it, if anything, is all that is missing. -/
theorem Conserved.step {event : NetworkEvent}
    (conserved : Conserved workerEnv client net delivered carried total lost)
    (plain : Plain client) (prints : env.library.Prints) (workerPrints : workerEnv.library.Prints)
    (sets : net.SetsResults workerEnv event)
    (stepped : net.step env workerEnv event = some next) :
    ∃ delivered carried total more,
      Conserved workerEnv client next delivered carried total (lost + more) ∧
        (net.Lossless workerEnv event → more = 0) := by
  cases event with
  | start peer connect handle =>
      rw [Network.step] at stepped
      split at stepped
      next => contradiction
      next free =>
        obtain ⟨process, started, rfl⟩ := Option.map_eq_some_iff.mp stepped
        obtain ⟨carried, conserved⟩ :=
          conserved.start (Option.not_isSome_iff_eq_none.mp free) started
        exact ⟨delivered, carried, total, 0, by rwa [add_zero], fun _ => rfl⟩
  | process peer event =>
      obtain ⟨carried, total, more, conserved, kept⟩ :=
        conserved.processStep workerPrints sets stepped
      exact ⟨delivered, carried, total, more, conserved, kept⟩
  | deliver | client | timer | segment =>
      exact conserved.brokerStep plain prints workerPrints stepped

/-- Where nothing is left to do, nothing is underway. -/
theorem Conserved.quiet (conserved : Conserved workerEnv client net delivered carried total lost)
    (prints : workerEnv.library.Prints) (quiet : net.Quiet) :
    total = 0 ∧ queuedFor workerEnv.library client net.broker = 0 := by
  refine ⟨conserved.holds.total_eq_zero fun peer => ?_, by rw [queuedFor, quiet.1]; rfl⟩
  obtain ⟨noRequest, noReply, idle⟩ := quiet.2 peer
  have wires : wiresFor workerEnv.library client (net.toWorker peer) = 0 := by
    refine List.sum_eq_zero fun asked member => ?_
    obtain ⟨wire, isWire, rfl⟩ := List.mem_map.mp member
    have none : requestOf wire = none := by
      simpa using List.countP_eq_zero.mp noRequest wire isWire
    rw [wireFor, none, Option.elim_none]
  have replies : carriedFor client (carried peer) = 0 := by
    have carries := conserved.carries peer
    have noReply := List.countP_eq_zero.mp noReply
    generalize net.toBroker peer = wires, carried peer = answers at carries noReply
    induction carries with
    | nil => rfl
    | @cons wire answered _ _ parcel _ ih =>
        rw [carriedFor_cons, ih fun other member => noReply other (List.mem_cons_of_mem _ member),
          add_zero]
        cases answered with
        | none => rfl
        | some results =>
            exact absurd (isReply_of_parcel prints parcel) (noReply wire List.mem_cons_self)
  rw [Network.held, wires, replies, zero_add, add_zero]
  cases isProcess : net.processes peer with
  | none => rfl
  | some process =>
      obtain ⟨nothing, notServing⟩ := idle process isProcess
      have inService : process.inService workerEnv.library = 0 := by
        rw [MessageWorker.inService]
        split
        next request serving => exact absurd serving (notServing request)
        next => rfl
        next => rfl
      rw [Option.elim_some, processFor, MessageWorker.pending, nothing, inService]
      rfl

end Runs

/-- Where no step loses an action, none is lost. -/
theorem conserved_run {env : Environment} {workerEnv : WorkerEnvironment}
    {client : ByteString} {heartbeatExpiry : Nat} {sessions : SharedMemSessionsCache}
    {events : List NetworkEvent} {net : Network} (plain : Plain client)
    (prints : env.library.Prints) (workerPrints : workerEnv.library.Prints)
    (run : Run (Network.step env workerEnv)
      (fun net event => net.SetsResults workerEnv event ∧ net.Lossless workerEnv event)
      (.new heartbeatExpiry sessions) events net) :
    ∃ delivered carried total, Conserved workerEnv client net delivered carried total 0 :=
  run.invariant
    (fun net => ∃ delivered carried total,
      Conserved workerEnv client net delivered carried total 0)
    ⟨[], fun _ => [], 0, conserved_new heartbeatExpiry sessions⟩ (by
      rintro state event next ⟨delivered, carried, total, conserved⟩ ⟨sets, lossless⟩ stepped
      obtain ⟨delivered, carried, total, more, conserved, kept⟩ :=
        conserved.step plain prints workerPrints sets stepped
      rw [kept lossless, add_zero] at conserved
      exact ⟨delivered, carried, total, conserved⟩)

/-- What has been handed over is answered, underway or queued. -/
theorem Conserved.handed {workerEnv : WorkerEnvironment} {client : ByteString} {net : Network}
    {delivered : List Answered} {carried : ByteString → List (Option Answered)}
    {total : Multiset Asked}
    (conserved : Conserved workerEnv client net delivered carried total 0)
    (workerPrints : workerEnv.library.Prints) :
    handedFor workerEnv.library client net.broker =
        answeredBy delivered + total + queuedFor workerEnv.library client net.broker ∧
      (net.Quiet → handedFor workerEnv.library client net.broker = answeredBy delivered) := by
  have whole : handedFor workerEnv.library client net.broker =
      answeredBy delivered + total + queuedFor workerEnv.library client net.broker := by
    rw [handedFor_eq conserved.accounted, conserved.balanced, add_zero]
  refine ⟨whole, fun quiet => ?_⟩
  obtain ⟨nothing, empty⟩ := conserved.quiet workerPrints quiet
  rw [whole, nothing, empty, add_zero, add_zero]

end Cdcm.System
