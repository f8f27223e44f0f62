import Cdcm.System.Wires

/-!
# Requests that are underway

A request is underway from the moment the broker sends it until the broker has taken the
reply from the channel.  An idle worker has none underway and a busy one has one, as long as
a request makes one reply, a worker connects anew only without requests, and the broker sends
requests to workers that are still there.
-/

namespace Cdcm.System

open Json Protocol Zmq Backend Frontend SessionsCache Machine

namespace Network

section Conditions

variable (env : Environment) (workerEnv : WorkerEnvironment) (net : Network)

/-- A process is connected under the identity. -/
def connected (peer : ByteString) : Bool := (net.processes peer).isSome

/-- The requests sent to a worker that a process has still to take or to answer, and those
whose reply is on its way. -/
def underway (peer : ByteString) : Nat :=
  (net.processes peer).elim 0 (fun process => requestsIn (net.toWorker peer) + process.due) +
    repliesIn peer (net.toBroker peer)

/-- How many requests the broker has sent to a worker. -/
def asked (peer : ByteString) : Nat :=
  net.broker.journal.countP fun entry => entry.request.any fun target => target.1 = peer

/-- A worker that the broker takes for idle has no request on its channel, serves none and
has postponed nothing; and each request to a worker has made it idle again once, unless it is
still underway, which is one at most. -/
def Agrees : Prop :=
  (∀ peer worker, net.broker.workers.get peer = some worker → worker.idle = true →
    requestsIn (net.toWorker peer) = 0 ∧ ∀ process ∈ net.processes peer,
      process.postponedActions.actions = 0 ∧ ∀ request, process.phase ≠ .serving request) ∧
  ∀ peer, net.asked peer = net.freed peer + net.underway peer ∧ net.underway peer ≤ 1

/-- An identity that is made up for a connection is not in use. -/
def Fresh (peer : ByteString) : Prop :=
  Plain peer ∧ net.connected peer = false ∧ net.broker.workers.exists peer = false ∧
    net.toBroker peer = []

instance (peer : ByteString) : Decidable (net.Fresh peer) :=
  inferInstanceAs (Decidable (_ ∧ _ ∧ _ ∧ _))

/-- A process that connects anew has no request and nothing postponed, and a request that it
serves makes one reply. -/
def AdmitsProcess (peer : ByteString) (process : MessageWorker) : WorkerEvent → Prop
  | .poll input => process.Reconnects (.poll input) →
      net.Fresh input.identity ∧ requestsIn (net.toWorker peer) = 0 ∧
        process.postponedActions.actions.card = 0
  | .serve input => process.RepliesOnce workerEnv (.serve input)
  | .retry _ => True

instance decidableAdmitsProcess (peer : ByteString) (process : MessageWorker)
    (event : WorkerEvent) : Decidable (net.AdmitsProcess workerEnv peer process event) :=
  match event with
  | .poll _ => inferInstanceAs (Decidable (_ → _))
  | .serve _ => inferInstanceAs (Decidable (process.RepliesOnce workerEnv _))
  | .retry _ => inferInstanceAs (Decidable True)

/-- In every turn of the dispatch loop, the worker that is selected is connected. -/
def TurnsReach (id : ByteString) : List (Zmsg × ByteString) → MessageBroker → Prop
  | [], _ => True
  | front :: rest, broker =>
      (∀ worker ∈ broker.selectWorker front.2, net.connected worker.identity = true) ∧
        ∀ next ∈ broker.dispatchTurn id front rest, TurnsReach id rest next

instance decidableTurnsReach (id : ByteString) :
    (pending : List (Zmsg × ByteString)) → (broker : MessageBroker) →
      Decidable (net.TurnsReach id pending broker)
  | [], _ => inferInstanceAs (Decidable True)
  | front :: rest, broker =>
      have : ∀ next, Decidable (net.TurnsReach id rest next) := decidableTurnsReach id rest
      inferInstanceAs (Decidable
        ((∀ worker ∈ broker.selectWorker front.2, net.connected worker.identity = true) ∧
          ∀ next ∈ broker.dispatchTurn id front rest, net.TurnsReach id rest next))

/-- When a dispatch enters its loop, all its turns select connected workers. -/
def DispatchReaches (broker : MessageBroker) (now : Int) (call : DispatchCall) : Prop :=
  broker.anyIdle now = true →
    net.TurnsReach call.id (broker.enqueue call).requests (broker.purgedFor now call)

instance (broker : MessageBroker) (now : Int) (call : DispatchCall) :
    Decidable (net.DispatchReaches broker now call) := inferInstanceAs (Decidable (_ → _))

/-- The dispatch behind what the broker reacts to, if any, selects connected workers. -/
def AdmitsBroker (event : NetworkEvent) : Prop :=
  ∀ brokerEvent ∈ net.brokerEvent event, ∀ result ∈ net.broker.handle env brokerEvent,
    ∀ call ∈ result.2, net.DispatchReaches result.1 (MessageBroker.purgeTime brokerEvent) call

instance (event : NetworkEvent) : Decidable (net.AdmitsBroker env event) :=
  inferInstanceAs (Decidable (∀ brokerEvent ∈ net.brokerEvent event,
    ∀ result ∈ net.broker.handle env brokerEvent, ∀ call ∈ result.2,
      net.DispatchReaches result.1 (MessageBroker.purgeTime brokerEvent) call))

/-- The condition on a step of the network. -/
def Admits : NetworkEvent → Prop
  | .start peer _ _ => net.Fresh peer
  | .process peer event =>
      ∀ process ∈ net.processes peer, net.AdmitsProcess workerEnv peer process event
  | .deliver peer clock => net.AdmitsBroker env (.deliver peer clock)
  | .client frames input => net.AdmitsBroker env (.client frames input)
  | .timer _ | .segment _ => True

instance decidableAdmits (event : NetworkEvent) : Decidable (net.Admits env workerEnv event) :=
  match event with
  | .start peer _ _ => inferInstanceAs (Decidable (net.Fresh peer))
  | .process peer event => inferInstanceAs (Decidable
      (∀ process ∈ net.processes peer, net.AdmitsProcess workerEnv peer process event))
  | .deliver peer clock => inferInstanceAs (Decidable (net.AdmitsBroker env (.deliver peer clock)))
  | .client frames input =>
      inferInstanceAs (Decidable (net.AdmitsBroker env (.client frames input)))
  | .timer _ | .segment _ => inferInstanceAs (Decidable True)

/-- The assumption: the broker sends a `REQUEST` only to a worker that it holds as idle. -/
def ServesIdle (event : NetworkEvent) : Prop :=
  ∀ brokerEvent ∈ net.brokerEvent event, net.broker.EventServesIdle env brokerEvent

instance (event : NetworkEvent) : Decidable (net.ServesIdle env event) :=
  inferInstanceAs (Decidable (∀ brokerEvent ∈ net.brokerEvent event,
    net.broker.EventServesIdle env brokerEvent))

end Conditions

/-! ## The invariant -/

/-- What a worker has sent: heartbeats and replies, behind a `READY` as long as the broker
does not know it. -/
def Orderly (broker : MessageBroker) (peer : ByteString) (wires : List (List ByteString)) :
    Prop :=
  (∀ wire ∈ wires, Speaks peer wire) ∨ broker.workers.get peer = none ∧
    ∃ ready rest, wires = ready :: rest ∧ Joins peer ready ∧ ∀ wire ∈ rest, Speaks peer wire

/-- What holds of the network between its steps. -/
structure Inv (workerEnv : WorkerEnvironment) (net : Network) : Prop where
  plain : ∀ peer, net.connected peer = true ∨ net.broker.workers.exists peer = true ∨
    net.toBroker peer ≠ [] → Plain peer
  process : ∀ peer process, net.processes peer = some process →
    process.identity = peer ∧ process.Regular workerEnv
  gone : ∀ peer, net.processes peer = none → requestsIn (net.toWorker peer) = 0
  orderly : ∀ peer, Orderly net.broker peer (net.toBroker peer)
  count : ∀ peer, net.underway peer = (busy net.broker peer).toNat
  asked : ∀ peer, net.asked peer = net.freed peer + (busy net.broker peer).toNat

variable {env : Environment} {workerEnv : WorkerEnvironment} {net next : Network}

theorem busy_eq_false {broker : MessageBroker} {peer : ByteString} {worker : Worker}
    (registered : broker.workers.get peer = some worker) (idle : worker.idle = true) :
    busy broker peer = false := by
  rw [busy, registered, Option.any_some, idle]
  rfl

/-- The invariant is an agreement. -/
theorem Inv.agrees (inv : Inv workerEnv net) : net.Agrees := by
  refine ⟨fun peer worker registered idle => ?_, fun peer => ?_⟩
  · have none := inv.count peer
    rw [busy_eq_false registered idle, Bool.toNat_false, underway] at none
    cases isProcess : net.processes peer with
    | none => exact ⟨inv.gone peer isProcess, nofun⟩
    | some process =>
        rw [isProcess, Option.elim_some, MessageWorker.due] at none
        refine ⟨by omega, fun other same => ?_⟩
        obtain rfl := Option.some.inj same
        refine ⟨Multiset.card_eq_zero.mp (by omega), fun request serving => ?_⟩
        rw [serving, Phase.inService] at none
        omega
  · rw [inv.asked, inv.count]
    exact ⟨rfl, Bool.toNat_le _⟩

/-- What holds of one worker and its process between the steps of the network. -/
structure InvAt (workerEnv : WorkerEnvironment) (net : Network) (peer : ByteString) : Prop where
  plain : net.connected peer = true ∨ net.broker.workers.exists peer = true ∨
    net.toBroker peer ≠ [] → Plain peer
  process : ∀ process, net.processes peer = some process →
    process.identity = peer ∧ process.Regular workerEnv
  gone : net.processes peer = none → requestsIn (net.toWorker peer) = 0
  orderly : Orderly net.broker peer (net.toBroker peer)
  count : net.underway peer = (busy net.broker peer).toNat

/-- A process moves: it keeps the invariant when it does so for itself, and leaves the broker
and the others as they are. -/
theorem Inv.moves {peer : ByteString} (inv : Inv workerEnv net)
    (sameBroker : next.broker = net.broker) (sameFreed : next.freed = net.freed)
    (others : ∀ other, other ≠ peer → next.processes other = net.processes other ∧
      next.toBroker other = net.toBroker other ∧ next.toWorker other = net.toWorker other)
    (here : InvAt workerEnv next peer) : Inv workerEnv next := by
  constructor
  · intro other used
    by_cases same : other = peer
    · exact same ▸ here.plain (same ▸ used)
    · obtain ⟨sameProcess, sameReplies, _⟩ := others other same
      rw [connected, sameProcess, sameReplies, sameBroker] at used
      exact inv.plain other used
  · intro other process isProcess
    by_cases same : other = peer
    · exact same ▸ here.process process (same ▸ isProcess)
    · exact inv.process other process ((others other same).1.symm.trans isProcess)
  · intro other noProcess
    by_cases same : other = peer
    · exact same ▸ here.gone (same ▸ noProcess)
    · obtain ⟨sameProcess, _, sameRequests⟩ := others other same
      rw [sameRequests]
      exact inv.gone other (sameProcess.symm.trans noProcess)
  · intro other
    by_cases same : other = peer
    · exact same ▸ here.orderly
    · rw [sameBroker, (others other same).2.1]
      exact inv.orderly other
  · intro other
    by_cases same : other = peer
    · exact same ▸ here.count
    · obtain ⟨sameProcess, sameReplies, sameRequests⟩ := others other same
      rw [underway, sameProcess, sameReplies, sameRequests, sameBroker]
      exact inv.count other
  · intro other
    rw [Network.asked, sameBroker, sameFreed]
    exact inv.asked other

theorem inv_new (heartbeatExpiry : Nat) (sessions : SharedMemSessionsCache) :
    Inv workerEnv (new heartbeatExpiry sessions) := by
  have unknown (peer : ByteString) :
      (new heartbeatExpiry sessions).broker.workers.get peer = none := by
    simp [new, MessageBroker.new]
  have notBusy (peer : ByteString) : busy (new heartbeatExpiry sessions).broker peer = false := by
    rw [busy, unknown]
    rfl
  constructor
  · intro peer used
    rw [WorkerContainer.exists_iff, unknown] at used
    simp [connected, new] at used
  · exact fun _ _ isProcess => absurd isProcess (Option.some_ne_none _).symm
  · exact fun _ _ => rfl
  · exact fun _ => .inl fun _ member => absurd member List.not_mem_nil
  · intro peer
    rw [notBusy]
    rfl
  · intro peer
    rw [notBusy]
    rfl

/-! ## Steps of the processes -/

section Processes

variable {peer : ByteString} {process moving : MessageWorker}

/-- A step of a process takes the messages from its channel that it says. -/
theorem arrives_spec {event : WorkerEvent} {arrived : Channels}
    (arrives : net.arrives peer event = some arrived) :
    (∀ other, other ≠ peer → arrived other = net.toWorker other) ∧
      requestsIn (arrived peer) + event.taken = requestsIn (net.toWorker peer) := by
  cases event with
  | retry | serve =>
      obtain rfl := Option.some.inj arrives
      exact ⟨fun _ _ => rfl, rfl⟩
  | poll input =>
      obtain ⟨frames, identity, connect, beat, handle⟩ := input
      cases frames with
      | none =>
          obtain rfl := Option.some.inj arrives
          exact ⟨fun _ _ => rfl, rfl⟩
      | some frames =>
          simp only [Network.arrives] at arrives
          split at arrives
          next isHead =>
            obtain rfl := Option.some.inj arrives
            obtain ⟨rest, whole⟩ := List.head?_eq_some_iff.mp isHead
            refine ⟨fun other different => Function.update_of_ne different _ _, ?_⟩
            rw [Channels.pop, Function.update_self, whole, List.tail_cons, requestsIn, requestsIn,
              List.countP_cons, WorkerEvent.taken, Option.bind_some]
          next => contradiction

/-- A connected process that sends heartbeats and replies keeps the invariant. -/
theorem Inv.stays {event : WorkerEvent} {arrived : Channels} {sents : List Sent}
    (inv : Inv workerEnv net) (isProcess : net.processes peer = some process)
    (arrives : net.arrives peer event = some arrived) (regular : moving.Regular workerEnv)
    (identity : moving.identity = peer) (journal : moving.journal = process.journal ++ sents)
    (own : ∀ sent ∈ sents, sent.identity = peer)
    (speaks : ∀ wire ∈ wiresOf sents, Speaks peer wire)
    (due : moving.due + repliesIn peer (wiresOf sents) = process.due + event.taken) :
    Inv workerEnv ({ net with toWorker := arrived }.moved peer process.journal moving) := by
  obtain ⟨others, taken⟩ := arrives_spec arrives
  have plain : Plain peer := inv.plain peer (.inl (by rw [connected, isProcess]; rfl))
  have moves : { net with toWorker := arrived }.moved peer process.journal moving =
      { net with
        processes := Function.update net.processes peer (some moving)
        toBroker := Function.update net.toBroker peer (net.toBroker peer ++ wiresOf sents)
        toWorker := arrived } := by
    rw [moved, journal, List.drop_left, foldl_post own, identity, Function.update_idem]
  rw [moves]
  refine inv.moves rfl rfl (fun other same => ⟨Function.update_of_ne same _ _,
    Function.update_of_ne same _ _, others other same⟩) ?_
  constructor
  case plain => exact fun _ => plain
  case process =>
    intro process isProcess
    simp only [Function.update_self, Option.some.injEq] at isProcess
    exact isProcess ▸ ⟨identity, regular⟩
  case gone =>
    intro noProcess
    simp at noProcess
  case orderly =>
    simp only [Function.update_self]
    cases inv.orderly peer with
    | inl spoken =>
        refine .inl fun wire member => ?_
        cases List.mem_append.mp member with
        | inl old => exact spoken wire old
        | inr new => exact speaks wire new
    | inr joining =>
        obtain ⟨unknown, ready, rest, whole, joins, spoken⟩ := joining
        refine .inr ⟨unknown, ready, rest ++ wiresOf sents, by rw [whole]; rfl, joins, ?_⟩
        intro wire member
        cases List.mem_append.mp member with
        | inl old => exact spoken wire old
        | inr new => exact speaks wire new
  case count =>
    have before := inv.count peer
    rw [underway, isProcess, Option.elim_some] at before
    simp only [underway, Function.update_self, Option.elim_some, repliesIn_append]
    omega

/-- A process without requests may leave. -/
theorem Inv.leaves (inv : Inv workerEnv net) (isProcess : net.processes peer = some process)
    (free : requestsIn (net.toWorker peer) = 0) (due : process.due = 0) :
    Inv workerEnv { net with processes := Function.update net.processes peer none } := by
  refine inv.moves rfl rfl (fun _ same => ⟨Function.update_of_ne same _ _, rfl, rfl⟩) ?_
  constructor
  case plain => exact fun _ => inv.plain peer (.inl (by rw [connected, isProcess]; rfl))
  case process =>
    intro process isProcess
    simp at isProcess
  case gone => exact fun _ => free
  case orderly => exact inv.orderly peer
  case count =>
    have before := inv.count peer
    rw [underway, isProcess, Option.elim_some, free, due] at before
    simp only [underway, Function.update_self, Option.elim_none]
    exact before

/-- A process may connect under a fresh identity. -/
theorem Inv.joins {sents : List Sent} (inv : Inv workerEnv net)
    (fresh : net.Fresh moving.identity) (regular : moving.Regular workerEnv) (due : moving.due = 0)
    (beats : ∀ sent ∈ sents, sent = MessageWorker.bare moving.identity mdpwHeartbeat) :
    Inv workerEnv { net with
      processes := Function.update net.processes moving.identity (some moving)
      toBroker := (MessageWorker.bare moving.identity mdpwReady :: sents).foldl Channels.post
        net.toBroker } := by
  obtain ⟨plain, notConnected, notKnown, silent⟩ := fresh
  obtain ⟨beatsOwn, speaks, noReply⟩ := beats_speak plain beats
  have unknown := WorkerContainer.exists_eq_false.mp notKnown
  have free : net.processes moving.identity = none := by
    rwa [connected, Option.isSome_eq_false_iff, Option.isNone_iff_eq_none] at notConnected
  have own : ∀ sent ∈ MessageWorker.bare moving.identity mdpwReady :: sents,
      sent.identity = moving.identity := by
    intro sent member
    cases List.mem_cons.mp member with
    | inl ready => exact ready ▸ rfl
    | inr beat => exact beatsOwn sent beat
  have joins : Joins moving.identity [[], mdpwWorker, mdpwReady] :=
    ⟨[], workerCommand_commandWire plain (by simp)⟩
  have wires : wiresOf (MessageWorker.bare moving.identity mdpwReady :: sents) =
      [[], mdpwWorker, mdpwReady] :: wiresOf sents := by
    have sends := @send_bare mdpwReady (by simp) moving.identity
    rw [wiresOf, List.filterMap_cons, sends, wiresOf]
  rw [foldl_post own, wires, silent, List.nil_append]
  refine inv.moves rfl rfl (fun _ same => ⟨Function.update_of_ne same _ _,
    Function.update_of_ne same _ _, rfl⟩) ?_
  constructor
  case plain => exact fun _ => plain
  case process =>
    intro process isProcess
    simp only [Function.update_self, Option.some.injEq] at isProcess
    exact isProcess ▸ ⟨rfl, regular⟩
  case gone =>
    intro noProcess
    simp at noProcess
  case orderly =>
    simp only [Function.update_self]
    exact .inr ⟨unknown, _, _, rfl, joins, speaks⟩
  case count =>
    have before := inv.count moving.identity
    rw [underway, free, silent] at before
    have ready : isReply moving.identity [[], mdpwWorker, mdpwReady] = false :=
      isReply_eq (workerCommand_commandWire plain (by simp))
    simp only [underway, Function.update_self, Option.elim_some, repliesIn_cons, noReply,
      ready, due, inv.gone _ free, ← before]
    rfl

/-- A process may take messages that are no requests. -/
theorem Inv.reads {arrived : Channels} (inv : Inv workerEnv net)
    (same : ∀ other, requestsIn (arrived other) = requestsIn (net.toWorker other)) :
    Inv workerEnv { net with toWorker := arrived } where
  plain := inv.plain
  process := inv.process
  gone other noProcess := (same other).trans (inv.gone other noProcess)
  orderly := inv.orderly
  count other := by
    have before := inv.count other
    simp only [underway, same] at before ⊢
    exact before
  asked := inv.asked

/-- A process starts under a fresh identity. -/
theorem Inv.start {connect handle : Int} (inv : Inv workerEnv net) (fresh : net.Fresh peer)
    (started : MessageWorker.start workerEnv peer connect handle = some moving) :
    Inv workerEnv (net.moved peer [] moving) := by
  obtain ⟨regular, rfl, due, journal⟩ := MessageWorker.regular_start started
  have joined := inv.joins fresh regular due (List.forall_mem_nil _)
  rw [moved, Function.update_idem, journal]
  exact joined

/-- A step of a process keeps the invariant, if it makes one reply for its request and has
none when it connects anew. -/
theorem Inv.processStep {event : WorkerEvent} (inv : Inv workerEnv net)
    (admits : ∀ process ∈ net.processes peer, net.AdmitsProcess workerEnv peer process event)
    (stepped : net.processStep workerEnv peer event = some next) : Inv workerEnv next := by
  simp only [Network.processStep, Option.bind_eq_bind, Option.bind_eq_some_iff] at stepped
  obtain ⟨process, isProcess, arrived, arrives, moving, isMoving, stepped⟩ := stepped
  split at stepped
  next => contradiction
  next =>
    obtain rfl := Option.some.inj stepped
    obtain ⟨rfl, regular⟩ := inv.process peer process isProcess
    have plain := inv.plain process.identity (.inl (by rw [connected, isProcess]; rfl))
    have admitted := admits process isProcess
    have once : process.RepliesOnce workerEnv event := by
      cases event with
      | serve input => exact admitted
      | poll | retry => trivial
    obtain ⟨regular, progressed⟩ := regular.step once isMoving
    cases progressed with
    | quiet identity beats journal areBeats due =>
        obtain ⟨own, speaks, none⟩ := beats_speak plain areBeats
        exact inv.stays isProcess arrives regular identity journal own speaks
          (by rw [none, due, add_zero])
    | replied identity sent journal returns due =>
        obtain ⟨wire, sends, speaks, isReply⟩ := returns_speaks plain returns
        have wires : wiresOf [sent] = [wire] := by
          rw [wiresOf, List.filterMap_cons, sends, List.filterMap_nil]
        refine inv.stays isProcess arrives regular identity journal ?_ ?_ ?_
        · intro other member
          obtain ⟨_, _, _, own, _⟩ := returns
          rw [List.mem_singleton.mp member, own]
        · intro other member
          rw [wires] at member
          exact List.mem_singleton.mp member ▸ speaks
        · rw [wires, repliesIn_cons, isReply, if_pos rfl, repliesIn_nil, zero_add, due]
    | reconnected input isPoll reconnects identity beats journal areBeats due taken =>
        obtain rfl := isPoll
        obtain ⟨fresh, free, nothing⟩ := admitted reconnects
        obtain ⟨others, count⟩ := arrives_spec arrives
        rw [taken, add_zero] at count
        have same : ∀ other, requestsIn (arrived other) = requestsIn (net.toWorker other) := by
          intro other
          by_cases equal : other = process.identity
          · rw [equal, count]
          · rw [others other equal]
        have polling : process.due = 0 := by
          rcases MessageWorker.step_cases isMoving with ⟨_, _, other, _⟩ | ⟨_, _, polling, _⟩ |
            ⟨_, _, other, _⟩
          · contradiction
          · rw [MessageWorker.due, nothing, polling]
            rfl
          · contradiction
        have left := (inv.reads same).leaves isProcess (count.trans free) polling
        have elsewhere : Network.Fresh { net with
            toWorker := arrived
            processes := Function.update net.processes process.identity none }
              moving.identity := by
          obtain ⟨plain, notConnected, notKnown, silent⟩ := fresh
          rw [identity]
          refine ⟨plain, ?_, notKnown, silent⟩
          by_cases equal : input.identity = process.identity
          · simp [connected, equal]
          · simp only [connected, Function.update_of_ne equal]
            exact notConnected
        have joined := left.joins elsewhere regular (due.trans polling) (identity ▸ areBeats)
        rw [moved, journal, List.drop_left, ← identity]
        exact joined

end Processes

end Network

end Cdcm.System
