import Cdcm.System.Punctual

/-!
# No worker is suspected that is there

As long as events are in time, and the heartbeat expiry leaves room for the heartbeat
interval, a turn of a worker and the time that a message takes, the broker holds every worker
that it has heard of until it has heard of the next sign of life.  It drops none that is
connected, and no reply.
-/

namespace Cdcm.System

open Json Protocol Zmq Backend Frontend SessionsCache Machine

/-- A message of a worker that is connected. -/
def Talks (peer : ByteString) (wire : List ByteString) : Prop :=
  ∃ command client, workerCommand (peer :: wire) = some ⟨peer, command, client⟩ ∧
    (command = mdpwHeartbeat ∨ command = mdpwReply)

/-- What the broker knows of a worker that it has last heard of at some time: the next message
makes it known, or it is held for the lease from that time on. -/
inductive Knows (lease : Int) (held : Option Int) (peer : ByteString) (heard : Int)
    (wires : List (List ByteString)) : Prop where
  | joining (unknown : held = none) (ready : List ByteString) (rest : List (List ByteString))
      (whole : wires = ready :: rest) (joins : Joins peer ready)
      (talks : ∀ wire ∈ rest, Talks peer wire)
  | known (expiry : Int) (isHeld : held = some expiry) (lasts : heard + lease ≤ expiry)
      (talks : ∀ wire ∈ wires, Talks peer wire)

section Messages

variable {peer : ByteString}

/-- A connection is a sign of life. -/
theorem isSign_joins {wire : List ByteString} (joins : Joins peer wire) :
    isSign peer wire = true := by
  obtain ⟨client, reads⟩ := joins
  simp [isSign, reads]

/-- A message of a worker is read under the command that it was sent with. -/
theorem workerCommand_brokerMessage (plain : Plain peer) {command : ByteString}
    (isCommand : command ∈ [mdpwReady, mdpwHeartbeat, mdpwReply]) {msg : Option Zmsg}
    {wire : List ByteString}
    (sends : (MessageWorker.brokerMessage command [] msg).send = some wire) :
    ∃ client, workerCommand (peer :: wire) = some ⟨peer, command, client⟩ := by
  have fixed : ¬ LooksLikeUuid (cStr command) ∧ cStr (recvPart (cStr command)) = command := by
    simp only [List.mem_cons, List.not_mem_nil, or_false] at isCommand
    rcases isCommand with rfl | rfl | rfl <;> decide
  rw [MessageWorker.brokerMessage_eq, Zmsg.send_cons_of_not_uuid (by decide)] at sends
  obtain ⟨_, sends, rfl⟩ := sends
  rw [Zmsg.send_cons_of_not_uuid (by decide)] at sends
  obtain ⟨_, sends, rfl⟩ := sends
  rw [Zmsg.send_cons_of_not_uuid fixed.1] at sends
  obtain ⟨rest, _, rfl⟩ := sends
  have version : cStr (recvPart mdpwWorker) = mdpwWorker := by decide
  refine ⟨(Zmsg.unwrap ⟨rest.map recvPart⟩).1, ?_⟩
  simp only [workerCommand, Zmsg.partData_recv, List.map_cons, version, fixed.2, if_true,
    plain.recvPart_eq, plain.cStr_eq]

/-- What a worker sends while it stays connected. -/
theorem talks_of_sents (plain : Plain peer) {command : ByteString}
    (isCommand : command = mdpwHeartbeat ∨ command = mdpwReply) {sents : List Sent}
    (sent : ∀ entry ∈ sents, ∃ msg, entry.msg = MessageWorker.brokerMessage command [] msg) :
    ∀ wire ∈ wiresOf sents, Talks peer wire := by
  intro wire member
  obtain ⟨entry, isSent, sends⟩ := List.mem_filterMap.mp member
  obtain ⟨msg, isMsg⟩ := sent entry isSent
  rw [isMsg] at sends
  obtain ⟨client, reads⟩ := workerCommand_brokerMessage plain
    (by rcases isCommand with rfl | rfl <;> simp) sends
  exact ⟨command, client, reads, isCommand⟩

end Messages

/-! ## What the broker hears -/

section Leases

variable {env : Environment} {broker : MessageBroker} {peer : ByteString} {heartbeatExpiry : Nat}
  {heard : Int}

/-- The sender of a message is the worker of the channel. -/
theorem workerCommand_sender {wire : List ByteString} {read : WorkerCommand} (plain : Plain peer)
    (reads : workerCommand (peer :: wire) = some read) : read.sender = peer := by
  rw [workerCommand, Zmsg.partData_recv, List.map_cons] at reads
  split at reads
  next sender _ header part rest whole =>
    split at reads
    next =>
      obtain rfl := Option.some.inj reads
      rw [← (List.cons.inj whole).1, plain.recvPart_eq]
      exact plain.cStr_eq
    next => contradiction
  next => contradiction

/-- Behind the next message, the broker holds its worker for the lease from the last sign
of life on. -/
theorem Knows.hears {wire : List ByteString} {rest : List (List ByteString)} {clock : WorkerClock}
    {stamp now : Int}
    (knows : Knows (nanoseconds heartbeatExpiry) (broker.workers.heldUntil peer) peer heard
      (wire :: rest))
    (past : stamp ≤ now) (update : now ≤ clock.update) :
    ∃ expiry, Lease.run (broker.workers.heldUntil peer)
        (MessageBroker.messageLease heartbeatExpiry broker (.worker (peer :: wire) clock) peer) =
          some expiry ∧
      (if isSign peer wire then stamp else heard) + nanoseconds heartbeatExpiry ≤ expiry ∧
      ∀ wire ∈ rest, Talks peer wire := by
  have late : stamp + nanoseconds heartbeatExpiry ≤
      (WorkerContainer.empty heartbeatExpiry).expiryFrom clock.update := by
    change _ ≤ clock.update + nanoseconds heartbeatExpiry
    omega
  cases knows with
  | joining unknown ready others whole joins talks =>
      obtain ⟨rfl, rfl⟩ := List.cons.inj whole
      have isNew : broker.workers.exists peer = false := by
        rw [WorkerContainer.exists_eq_false]
        simpa [WorkerContainer.heldUntil] using unknown
      rw [isSign_joins joins, if_pos rfl]
      obtain ⟨client, reads⟩ := joins
      refine ⟨_, ?_, late, talks⟩
      simp only [MessageBroker.messageLease, reads, MessageBroker.commandLease, isNew, if_true,
        Bool.false_eq_true, if_false]
      rfl
  | known expiry isHeld lasts talks =>
      obtain ⟨command, client, reads, isCommand⟩ := talks wire List.mem_cons_self
      have later := fun other member => talks other (List.mem_cons_of_mem wire member)
      simp only [MessageBroker.messageLease, reads, if_true, isHeld]
      rcases isCommand with rfl | rfl
      · have sign : isSign peer wire = true := by simp [isSign, reads]
        rw [sign, if_pos rfl]
        exact ⟨_, rfl, late, later⟩
      · by_cases nobody : client = []
        · have noSign : isSign peer wire = false := by
            simp only [isSign, reads, nobody, Option.any_some]
            decide
          rw [noSign, if_neg (by decide), nobody]
          exact ⟨expiry, rfl, lasts, later⟩
        · have sign : isSign peer wire = true := by simp [isSign, reads, nobody]
          rw [sign, if_pos rfl]
          refine ⟨_, ?_, late, later⟩
          rw [MessageBroker.commandLease, if_neg (by decide), if_pos rfl, if_neg nobody]
          rfl

/-- A purge leaves what lasts longer. -/
theorem run_purgeLease {event : BrokerEvent} {time expiry : Int} (late : time < expiry)
    (purges : (broker.storeAtPurge env event).isSome → MessageBroker.purgeTime event ≤ time) :
    Lease.run (some expiry) (MessageBroker.purgeLease env broker event peer) = some expiry := by
  rw [MessageBroker.purgeLease]
  split
  next workers isStore =>
    have purged := purges (by rw [isStore]; rfl)
    split
    · have stays : ¬ expiry ≤ MessageBroker.purgeTime event := by omega
      simp [Lease.step, stays]
    · rfl
  next => rfl

/-- What is not held stays so in a purge. -/
theorem run_purgeLease_none (event : BrokerEvent) :
    Lease.run none (MessageBroker.purgeLease env broker event peer) = none := by
  rw [MessageBroker.purgeLease]
  split
  · split <;> rfl
  · rfl

end Leases

/-! ## The invariant -/

/-- A worker is connected under an identity, or something of it is underway. -/
def Network.InUse (net : Network) (peer : ByteString) : Prop :=
  net.connected peer = true ∨ net.toBroker peer ≠ []

section Invariant

variable (workerEnv : WorkerEnvironment) (heartbeatExpiry : Nat) (limits : Limits)

/-- How long a worker is silent at most. -/
def silence : Int := nanoseconds workerEnv.heartbeatInterval + limits.turn

/-- The broker has heard of a worker at some time; it knows it from then on, its messages come
often enough, and the next heartbeat is not for later than an interval behind the last one. -/
structure WatchedAt (timed : TimedNetwork) (peer : ByteString) (heard : Int) : Prop where
  knows : Knows (nanoseconds heartbeatExpiry) (timed.net.broker.workers.heldUntil peer) peer
    heard (timed.net.toBroker peer)
  past : heard ≤ timed.now
  paced : Pulse.Paced (isSign peer) (silence workerEnv limits) heard (timed.stamped peer)
  beats : ∀ process ∈ timed.net.processes peer, nanoseconds process.heartbeatAt ≤
    Pulse.lastSign (isSign peer) heard (timed.stamped peer) +
      nanoseconds workerEnv.heartbeatInterval
  active : timed.net.connected peer = true → timed.activeAt peer ≤
    Pulse.lastSign (isSign peer) heard (timed.stamped peer) +
      nanoseconds workerEnv.heartbeatInterval

/-- What holds of an identity between the steps of the network. -/
structure Attended (timed : TimedNetwork) (peer : ByteString) : Prop where
  identity : ∀ process ∈ timed.net.processes peer, process.identity = peer
  stamps : (timed.stamped peer).map Prod.fst = timed.net.toBroker peer
  past : ∀ item ∈ timed.stamped peer, item.2 ≤ timed.now
  used : timed.net.InUse peer → Plain peer ∧ peer ∈ timed.peers ∧
    ∃ heard, WatchedAt workerEnv heartbeatExpiry limits timed peer heard

end Invariant

section Steps

variable {env : Environment} {workerEnv : WorkerEnvironment} {heartbeatExpiry : Nat}
  {limits : Limits} {timed : TimedNetwork} {event : TimedNetworkEvent} {next : Network}
  {peer : ByteString}

/-- The limits leave room for the lease. -/
structure Margin (workerEnv : WorkerEnvironment) (heartbeatExpiry : Nat) (limits : Limits) :
    Prop where
  interval : 0 ≤ workerEnv.heartbeatInterval
  turn : 0 ≤ limits.turn
  latency : 0 ≤ limits.latency
  room : nanoseconds workerEnv.heartbeatInterval + limits.turn + limits.latency <
    nanoseconds heartbeatExpiry

theorem Margin.silence_nonneg (margin : Margin workerEnv heartbeatExpiry limits) :
    0 ≤ silence workerEnv limits := by
  have interval := margin.interval
  have turn := margin.turn
  rw [silence, nanoseconds]
  omega

/-! ## Steps of the broker -/

theorem toBroker_received (net : Network) (event : NetworkEvent) (peer : ByteString) :
    (net.received event).toBroker peer =
      if TimedNetwork.delivers peer event then (net.toBroker peer).tail else net.toBroker peer := by
  cases event with
  | deliver other clock =>
      change Function.update net.toBroker other (net.toBroker other).tail peer = _
      by_cases same : other = peer
      · simp [TimedNetwork.delivers, same]
      · simp [TimedNetwork.delivers, same, Function.update_of_ne (Ne.symm same)]
  | start | process | client | timer | segment => rfl

/-- What the broker has not received yet is still underway. -/
theorem Attended.waiting_stamps (attended : Attended workerEnv heartbeatExpiry limits timed peer)
    (sameWires : next.toBroker = (timed.net.received event.event).toBroker) :
    (timed.waiting peer event.event).map Prod.fst = next.toBroker peer := by
  rw [sameWires, toBroker_received, TimedNetwork.waiting, ← attended.stamps]
  split
  · rw [List.map_tail]
  · rfl

theorem mem_waiting {item : List ByteString × Int}
    (member : item ∈ timed.waiting peer event.event) : item ∈ timed.stamped peer := by
  rw [TimedNetwork.waiting] at member
  split at member
  · exact List.mem_of_mem_tail member
  · exact member

/-- A step of the broker sends nothing to it. -/
theorem sentIn_broker (sameWires : next.toBroker = (timed.net.received event.event).toBroker) :
    timed.sentIn next peer = [] := by
  rw [TimedNetwork.sentIn, sameWires, toBroker_received, List.drop_eq_nil_iff]
  split
  · rw [List.length_tail]
    exact Nat.sub_le _ _
  · exact le_rfl

/-- A worker that is there, or of which something is underway, is held until then. -/
theorem Margin.lasts {heard expiry : Int} (margin : Margin workerEnv heartbeatExpiry limits)
    (punctual : Punctual limits timed event) (listed : peer ∈ timed.peers)
    (paced : Pulse.Paced (isSign peer) (silence workerEnv limits) heard
      (timed.waiting peer event.event))
    (active : timed.net.connected peer = true → timed.activeAt peer ≤
      Pulse.lastSign (isSign peer) heard (timed.waiting peer event.event) +
        nanoseconds workerEnv.heartbeatInterval)
    (used : timed.net.connected peer = true ∨ timed.waiting peer event.event ≠ [])
    (lasts : heard + nanoseconds heartbeatExpiry ≤ expiry) : event.time < expiry := by
  have waits : event.time ≤ heard + silence workerEnv limits + limits.latency := by
    refine paced.waits margin.latency
      (fun item member => punctual.arrives peer listed item (mem_waiting member))
      fun nothing => ?_
    have connected := used.resolve_right (not_not_intro nothing)
    have isActive := active connected
    have turn := punctual.turns peer listed connected
    rw [nothing, Pulse.lastSign] at isActive
    rw [silence]
    omega
  have room := margin.room
  rw [silence] at waits
  omega

/-- What an event of the broker reads from its clock for a purge is past. -/
theorem Punctual.purges {brokerEvent : BrokerEvent} (punctual : Punctual limits timed event)
    (isEvent : timed.net.brokerEvent event.event = some brokerEvent) :
    (timed.net.broker.storeAtPurge env brokerEvent).isSome →
      MessageBroker.purgeTime brokerEvent ≤ event.time := by
  have reads := punctual.reads
  cases happens : event.event with
  | start | process => rw [happens] at isEvent; contradiction
  | deliver other clock =>
      rw [happens] at isEvent reads
      obtain ⟨wire, _, rfl⟩ := Option.map_eq_some_iff.mp isEvent
      exact fun _ => reads.2.2
  | client frames input =>
      rw [happens] at isEvent reads
      obtain rfl := Option.some.inj isEvent
      exact fun _ => reads
  | timer now =>
      rw [happens] at isEvent reads
      obtain rfl := Option.some.inj isEvent
      exact fun _ => reads
  | segment sessions =>
      rw [happens] at isEvent
      obtain rfl := Option.some.inj isEvent
      intro isStore
      contradiction

/-- A message of another worker leaves the lease. -/
theorem messageLease_other {brokerEvent : BrokerEvent}
    (isEvent : timed.net.brokerEvent event.event = some brokerEvent)
    (plain : ∀ other, timed.net.InUse other → Plain other)
    (another : TimedNetwork.delivers peer event.event = false) :
    MessageBroker.messageLease heartbeatExpiry timed.net.broker brokerEvent peer = [] := by
  cases happens : event.event with
  | start | process => rw [happens] at isEvent; contradiction
  | deliver other clock =>
      rw [happens] at isEvent another
      obtain ⟨wire, isHead, rfl⟩ := Option.map_eq_some_iff.mp isEvent
      have differs : other ≠ peer := of_decide_eq_false another
      have isPlain : Plain other := by
        refine plain other (.inr fun nothing => ?_)
        rw [nothing] at isHead
        contradiction
      rw [MessageBroker.messageLease]
      cases reads : workerCommand (other :: wire) with
      | none => rfl
      | some read =>
          have sender := workerCommand_sender isPlain reads
          dsimp only
          rw [sender, if_neg (Ne.symm differs)]
  | client frames input =>
      rw [happens] at isEvent
      obtain rfl := Option.some.inj isEvent
      rfl
  | timer now =>
      rw [happens] at isEvent
      obtain rfl := Option.some.inj isEvent
      rfl
  | segment sessions =>
      rw [happens] at isEvent
      obtain rfl := Option.some.inj isEvent
      rfl

/-- What the broker knows of a worker when it has received a message, in front of the purge. -/
theorem WatchedAt.received {brokerEvent : BrokerEvent} {heard : Int}
    (watched : WatchedAt workerEnv heartbeatExpiry limits timed peer heard)
    (attended : ∀ other, Attended workerEnv heartbeatExpiry limits timed other)
    (punctual : Punctual limits timed event)
    (isEvent : timed.net.brokerEvent event.event = some brokerEvent) :
    ∃ heard', heard' ≤ timed.now ∧
      Pulse.Paced (isSign peer) (silence workerEnv limits) heard'
        (timed.waiting peer event.event) ∧
      Pulse.lastSign (isSign peer) heard' (timed.waiting peer event.event) =
        Pulse.lastSign (isSign peer) heard (timed.stamped peer) ∧
      Knows (nanoseconds heartbeatExpiry)
        (Lease.run (timed.net.broker.workers.heldUntil peer)
          (MessageBroker.messageLease heartbeatExpiry timed.net.broker brokerEvent peer))
        peer heard' ((timed.waiting peer event.event).map Prod.fst) := by
  have knows := watched.knows
  have paced := watched.paced
  rw [← (attended peer).stamps] at knows
  cases takes : TimedNetwork.delivers peer event.event with
  | false =>
      have plain (other : ByteString) (used : timed.net.InUse other) : Plain other :=
        ((attended other).used used).1
      rw [TimedNetwork.waiting, takes, if_neg Bool.false_ne_true,
        messageLease_other isEvent plain takes]
      exact ⟨heard, watched.past, paced, rfl, knows⟩
  | true =>
      cases happens : event.event with
      | start | process | client | timer | segment =>
          rw [happens] at takes
          contradiction
      | deliver other clock =>
          have clocks := punctual.reads
          rw [happens] at takes isEvent clocks
          obtain rfl := of_decide_eq_true takes
          obtain ⟨wire, isHead, rfl⟩ := Option.map_eq_some_iff.mp isEvent
          rw [← (attended other).stamps] at isHead
          have past := (attended other).past
          rw [TimedNetwork.waiting, takes, if_pos rfl]
          cases whole : timed.stamped other with
          | nil =>
              rw [whole] at isHead
              contradiction
          | cons item rest =>
              rw [whole] at knows isHead paced past
              obtain rfl := Option.some.inj isHead
              have itemPast := past item List.mem_cons_self
              obtain ⟨expiry, isHeld, lasts, talks⟩ := knows.hears itemPast clocks.2.1
              refine ⟨_, ?_, paced.2, rfl, .known expiry isHeld lasts talks⟩
              split
              · exact itemPast
              · exact watched.past

/-- A step of the broker suspects nobody. -/
theorem Attended.brokerStep {brokerEvent : BrokerEvent}
    (margin : Margin workerEnv heartbeatExpiry limits)
    (attended : ∀ other, Attended workerEnv heartbeatExpiry limits timed other)
    (punctual : Punctual limits timed event)
    (sameExpiry : timed.net.broker.workers.heartbeatExpiry = heartbeatExpiry)
    (isEvent : timed.net.brokerEvent event.event = some brokerEvent)
    (isStep : timed.net.broker.step env brokerEvent = some next.broker)
    (sameProcesses : next.processes = timed.net.processes)
    (sameWires : next.toBroker = (timed.net.received event.event).toBroker) :
    Attended workerEnv heartbeatExpiry limits (timed.advance event next) peer := by
  have nothing : timed.sentIn next peer = [] := sentIn_broker sameWires
  have stamped : (timed.advance event next).stamped peer = timed.waiting peer event.event := by
    rw [TimedNetwork.stamped_advance, nothing]
    exact List.append_nil _
  have noTurn : TimedNetwork.endsTurn next peer event.event = false := by
    cases happens : event.event with
    | process => rw [happens] at isEvent; contradiction
    | start | deliver | client | timer | segment => rfl
  have activeAt : (timed.advance event next).activeAt peer = timed.activeAt peer := by
    simp [TimedNetwork.activeAt_advance, noTurn, nothing]
  have stamps : (timed.waiting peer event.event).map Prod.fst = next.toBroker peer :=
    (attended peer).waiting_stamps sameWires
  constructor
  case identity =>
    intro process isProcess
    exact (attended peer).identity process (sameProcesses ▸ isProcess)
  case stamps => exact stamped ▸ stamps
  case past =>
    intro item member
    rw [stamped] at member
    exact ((attended peer).past item (mem_waiting member)).trans punctual.later
  case used =>
    intro used
    have wasConnected :
        (timed.advance event next).net.connected peer = timed.net.connected peer := by
      rw [Network.connected, Network.connected, TimedNetwork.advance, sameProcesses]
    have underway : timed.net.connected peer = true ∨ timed.waiting peer event.event ≠ [] := by
      refine used.imp (fun connected => wasConnected ▸ connected) fun more none => more ?_
      change next.toBroker peer = []
      rw [← stamps, none, List.map_nil]
    have wasUsed : timed.net.InUse peer := by
      refine underway.imp_right fun more none => more ?_
      rw [← (attended peer).stamps, List.map_eq_nil_iff] at none
      rw [TimedNetwork.waiting, none, List.tail_nil, ite_self]
    obtain ⟨plain, listed, heard, watched⟩ := (attended peer).used wasUsed
    obtain ⟨heard', past, paced, last, knows⟩ := watched.received attended punctual isEvent
    refine ⟨plain, List.mem_append_right _ listed, heard', ?_⟩
    constructor
    case past => exact past.trans punctual.later
    case paced => exact stamped ▸ paced
    case beats =>
      intro process isProcess
      rw [stamped, last]
      exact watched.beats process (sameProcesses ▸ isProcess)
    case active =>
      intro connected
      rw [stamped, last, activeAt]
      exact watched.active (wasConnected ▸ connected)
    case knows =>
      have held : next.broker.workers.heldUntil peer = _ :=
        MessageBroker.heldUntil_step sameExpiry isStep peer
      rw [MessageBroker.eventLease, Lease.run_append] at held
      change Knows _ (next.broker.workers.heldUntil peer) peer heard' (next.toBroker peer)
      rw [held, ← stamps]
      cases knows with
      | joining unknown ready rest whole joins talks =>
          rw [unknown]
          exact .joining (run_purgeLease_none brokerEvent) ready rest whole joins talks
      | known expiry isHeld lasts talks =>
          have late := margin.lasts punctual listed paced
            (fun connected => last ▸ watched.active connected) underway lasts
          rw [isHeld]
          exact .known expiry (run_purgeLease late (punctual.purges isEvent)) lasts talks

/-! ## Steps of the workers -/

/-- More of what a connected worker sends changes nothing about what the broker knows. -/
theorem Knows.append {lease heard : Int} {held : Option Int} {wires more : List (List ByteString)}
    (knows : Knows lease held peer heard wires) (talks : ∀ wire ∈ more, Talks peer wire) :
    Knows lease held peer heard (wires ++ more) := by
  have both {front : List (List ByteString)} (earlier : ∀ wire ∈ front, Talks peer wire) :
      ∀ wire ∈ front ++ more, Talks peer wire :=
    fun wire member => (List.mem_append.mp member).elim (earlier wire) (talks wire)
  cases knows with
  | joining unknown ready rest whole joins earlier =>
      exact .joining unknown ready (rest ++ more) (by rw [whole]; rfl) joins (both earlier)
  | known expiry isHeld lasts earlier => exact .known expiry isHeld lasts (both earlier)

/-- A step that is no message to the broker leaves what is underway. -/
theorem waiting_eq (noDelivery : TimedNetwork.delivers peer event.event = false) :
    timed.waiting peer event.event = timed.stamped peer := by
  rw [TimedNetwork.waiting, noDelivery, if_neg Bool.false_ne_true]

/-- What a worker has sent is what its channel has more. -/
theorem sentIn_append {wires : List (List ByteString)}
    (longer : next.toBroker peer = timed.net.toBroker peer ++ wires) :
    timed.sentIn next peer = wires := by
  rw [TimedNetwork.sentIn, longer, List.drop_left]

/-- A step in which a worker takes no part, or leaves. -/
theorem Attended.untouched (attended : Attended workerEnv heartbeatExpiry limits timed peer)
    (later : timed.now ≤ event.time) (sameBroker : next.broker = timed.net.broker)
    (processes : next.processes peer = timed.net.processes peer ∨ next.processes peer = none)
    (sameWires : next.toBroker peer = timed.net.toBroker peer)
    (noDelivery : TimedNetwork.delivers peer event.event = false)
    (noTurn : TimedNetwork.endsTurn next peer event.event = false) :
    Attended workerEnv heartbeatExpiry limits (timed.advance event next) peer := by
  have nothing : timed.sentIn next peer = [] :=
    sentIn_append (sameWires.trans (List.append_nil _).symm)
  have stamped : (timed.advance event next).stamped peer = timed.stamped peer := by
    rw [TimedNetwork.stamped_advance, nothing, waiting_eq noDelivery]
    exact List.append_nil _
  have activeAt : (timed.advance event next).activeAt peer = timed.activeAt peer := by
    simp [TimedNetwork.activeAt_advance, noTurn, nothing]
  have was {process : MessageWorker} (isProcess : process ∈ next.processes peer) :
      process ∈ timed.net.processes peer := by
    cases processes with
    | inl same => exact same ▸ isProcess
    | inr none => rw [none] at isProcess; contradiction
  have wasConnected (connected : next.connected peer = true) :
      timed.net.connected peer = true := by
    obtain ⟨process, isProcess⟩ := Option.isSome_iff_exists.mp connected
    rw [Network.connected, was isProcess]
    rfl
  constructor
  case identity => exact fun process isProcess => attended.identity process (was isProcess)
  case stamps => exact stamped ▸ sameWires ▸ attended.stamps
  case past =>
    intro item member
    exact (attended.past item (stamped ▸ member)).trans later
  case used =>
    intro used
    obtain ⟨plain, listed, heard, watched⟩ :=
      attended.used (used.imp wasConnected fun more none => more (sameWires.trans none))
    refine ⟨plain, List.mem_append_right _ listed, heard, ?_⟩
    constructor
    case knows =>
      change Knows _ (next.broker.workers.heldUntil peer) peer heard (next.toBroker peer)
      rw [sameBroker, sameWires]
      exact watched.knows
    case past => exact watched.past.trans later
    case paced => exact stamped ▸ watched.paced
    case beats => exact fun process isProcess => stamped ▸ watched.beats process (was isProcess)
    case active =>
      intro connected
      rw [stamped, activeAt]
      exact watched.active (wasConnected connected)

/-- A worker goes on: what it sends comes soon behind its last sign of life, and its next
heartbeat is not put off, unless it has sent one. -/
theorem Attended.stays {process moving : MessageWorker} {wires : List (List ByteString)}
    (margin : Margin workerEnv heartbeatExpiry limits) (punctual : Punctual limits timed event)
    (attended : Attended workerEnv heartbeatExpiry limits timed peer)
    (sameBroker : next.broker = timed.net.broker)
    (isProcess : timed.net.processes peer = some process)
    (isMoving : next.processes peer = some moving) (identity : moving.identity = peer)
    (longer : next.toBroker peer = timed.net.toBroker peer ++ wires)
    (noDelivery : TimedNetwork.delivers peer event.event = false)
    (talks : ∀ wire ∈ wires, Talks peer wire)
    (schedule : moving.heartbeatAt = process.heartbeatAt ∨ wires.any (isSign peer) = true ∧
      nanoseconds moving.heartbeatAt ≤ event.time + nanoseconds workerEnv.heartbeatInterval)
    (turn : TimedNetwork.endsTurn next peer event.event = true →
      wires.any (isSign peer) = true ∨ event.time ≤ nanoseconds process.heartbeatAt) :
    Attended workerEnv heartbeatExpiry limits (timed.advance event next) peer := by
  have connected : timed.net.connected peer = true := by
    rw [Network.connected, isProcess]
    rfl
  obtain ⟨plain, listed, heard, watched⟩ := attended.used (.inl connected)
  have stamped : (timed.advance event next).stamped peer =
      timed.stamped peer ++ Pulse.stampAll event.time wires := by
    rw [TimedNetwork.stamped_advance, waiting_eq noDelivery, sentIn_append longer]
  have nonneg : 0 ≤ nanoseconds workerEnv.heartbeatInterval :=
    mul_nonneg margin.interval (by decide)
  have isActive := watched.active connected
  have beats := watched.beats process isProcess
  have soon := punctual.turns peer listed connected
  have lastPast : Pulse.lastSign (isSign peer) heard (timed.stamped peer) ≤ event.time :=
    (Pulse.lastSign_le watched.past attended.past).trans punctual.later
  have last : Pulse.lastSign (isSign peer) heard ((timed.advance event next).stamped peer) =
      if wires.any (isSign peer) then event.time
      else Pulse.lastSign (isSign peer) heard (timed.stamped peer) := by
    rw [stamped, Pulse.lastSign_append, Pulse.lastSign_stampAll]
  constructor
  case identity =>
    intro found isFound
    obtain rfl := Option.some.inj (isMoving.symm.trans isFound)
    exact identity
  case stamps =>
    rw [stamped, List.map_append, attended.stamps, Pulse.map_fst_stampAll]
    exact longer.symm
  case past =>
    intro item member
    rw [stamped] at member
    cases List.mem_append.mp member with
    | inl old => exact (attended.past item old).trans punctual.later
    | inr new => exact (Pulse.mem_stampAll new).2.le
  case used =>
    intro _
    refine ⟨plain, List.mem_append_right _ listed, heard, ?_⟩
    constructor
    case knows =>
      change Knows _ (next.broker.workers.heldUntil peer) peer heard (next.toBroker peer)
      rw [sameBroker, longer]
      exact watched.knows.append talks
    case past => exact watched.past.trans punctual.later
    case paced =>
      rw [stamped, Pulse.paced_append]
      refine ⟨watched.paced, Pulse.paced_stampAll ?_ margin.silence_nonneg⟩
      rw [silence]
      omega
    case beats =>
      intro found isFound
      obtain rfl := Option.some.inj (isMoving.symm.trans isFound)
      rw [last]
      rcases schedule with same | ⟨sign, soon⟩
      · rw [same]
        split <;> omega
      · rw [if_pos sign]
        exact soon
    case active =>
      intro _
      rw [last, TimedNetwork.activeAt_advance, sentIn_append longer]
      cases sign : wires.any (isSign peer) with
      | true =>
          rw [Bool.or_true, if_pos rfl, if_pos rfl]
          omega
      | false =>
          rw [Bool.or_false, if_neg Bool.false_ne_true]
          split
          next ends =>
            have early := (turn ends).resolve_left (by simp [sign])
            omega
          next => exact isActive

/-- A worker that connects under a fresh identity is about to be heard of. -/
theorem Attended.joins {moving : MessageWorker} {ready : List ByteString}
    {more : List (List ByteString)} (margin : Margin workerEnv heartbeatExpiry limits)
    (attended : Attended workerEnv heartbeatExpiry limits timed peer)
    (fresh : timed.net.Fresh peer) (sameBroker : next.broker = timed.net.broker)
    (isMoving : next.processes peer = some moving) (identity : moving.identity = peer)
    (sent : next.toBroker peer = timed.net.toBroker peer ++ ready :: more)
    (joins : Joins peer ready) (talks : ∀ wire ∈ more, Talks peer wire)
    (schedule : nanoseconds moving.heartbeatAt ≤
      event.time + nanoseconds workerEnv.heartbeatInterval)
    (brings : peer ∈ TimedNetwork.brings event.event)
    (noDelivery : TimedNetwork.delivers peer event.event = false) :
    Attended workerEnv heartbeatExpiry limits (timed.advance event next) peer := by
  obtain ⟨plain, _, notKnown, silent⟩ := fresh
  have isNew := sentIn_append sent
  have nothing : timed.stamped peer = [] := by
    rw [← List.map_eq_nil_iff, attended.stamps, silent]
  have stamped : (timed.advance event next).stamped peer =
      Pulse.stampAll event.time (ready :: more) := by
    rw [TimedNetwork.stamped_advance, waiting_eq noDelivery, nothing, isNew, List.nil_append]
  have sign : (ready :: more).any (isSign peer) = true := by
    rw [List.any_cons, isSign_joins joins, Bool.true_or]
  have nonneg : 0 ≤ nanoseconds workerEnv.heartbeatInterval :=
    mul_nonneg margin.interval (by decide)
  rw [silent, List.nil_append] at sent
  constructor
  case identity =>
    intro found isFound
    obtain rfl := Option.some.inj (isMoving.symm.trans isFound)
    exact identity
  case stamps =>
    rw [stamped, Pulse.map_fst_stampAll]
    exact sent.symm
  case past =>
    intro item member
    exact (Pulse.mem_stampAll (stamped ▸ member)).2.le
  case used =>
    intro _
    refine ⟨plain, List.mem_append_left _ brings, event.time, ?_⟩
    constructor
    case knows =>
      have unknown : next.broker.workers.heldUntil peer = none := by
        rw [sameBroker, WorkerContainer.heldUntil, WorkerContainer.exists_eq_false.mp notKnown]
        rfl
      exact .joining unknown ready more sent joins talks
    case past => exact le_rfl
    case paced =>
      rw [stamped]
      exact Pulse.paced_stampAll (le_add_of_nonneg_right margin.silence_nonneg)
        margin.silence_nonneg
    case beats =>
      intro found isFound
      obtain rfl := Option.some.inj (isMoving.symm.trans isFound)
      rw [stamped, Pulse.lastSign_stampAll, sign, if_pos rfl]
      exact schedule
    case active =>
      intro _
      rw [stamped, Pulse.lastSign_stampAll, sign, if_pos rfl, TimedNetwork.activeAt_advance, isNew,
        sign, Bool.or_true, if_pos rfl]
      exact le_add_of_nonneg_right nonneg

end Steps

/-- A poll that makes no new connection takes a request, or it ends the turn of the loop. -/
theorem poll_stays {workerEnv : WorkerEnvironment} {process moving : MessageWorker}
    {input : PollInput} (keeps : ¬ process.Reconnects (.poll input))
    (polled : process.poll workerEnv input = some moving) :
    moving.phase.clock = none ∧ MessageWorker.KeepsSchedule process moving ∨
      ∃ liveness, MessageWorker.beat workerEnv { process with liveness := liveness } input =
        some moving := by
  cases MessageWorker.poll_turned polled with
  | request request phase heartbeatAt identity journal =>
      exact .inl ⟨by rw [phase]; rfl, .of_journal heartbeatAt identity journal⟩
  | stays liveness beaten => exact .inr ⟨liveness, beaten⟩
  | reconnects connected _ _ _ beaten =>
      obtain ⟨⟨now, phase⟩, _⟩ := MessageWorker.beat_sent beaten
      refine .inr (MessageWorker.poll_keeps ?_ keeps polled)
      cases isRequest : input.frames.bind requestOf with
      | none => rfl
      | some found =>
          have taken := (MessageWorker.poll_spec polled).request
          rw [isRequest, phase] at taken
          exact absurd taken.2.1 (by simp)

/-- A process has become another one, maybe under another identity, and what it has sent is on
its way. -/
structure Moves (net : Network) (other : ByteString) (process moving : MessageWorker)
    (next : Network) : Prop where
  wasThere : net.processes other = some process
  broker : next.broker = net.broker
  processes : next.processes =
    Function.update (Function.update net.processes other none) moving.identity (some moving)
  sends : ∀ sents, moving.journal = process.journal ++ sents →
    (∀ sent ∈ sents, sent.identity = moving.identity) →
    next.toBroker = Function.update net.toBroker moving.identity
      (net.toBroker moving.identity ++ wiresOf sents)

/-- A step of a process moves it. -/
theorem processStep_moves {workerEnv : WorkerEnvironment} {net next : Network}
    {other : ByteString} {event : WorkerEvent}
    (stepped : net.processStep workerEnv other event = some next) :
    ∃ process moving, process.step workerEnv event = some moving ∧
      Moves net other process moving next := by
  simp only [Network.processStep, Option.bind_eq_bind, Option.bind_eq_some_iff] at stepped
  obtain ⟨process, isProcess, arrived, arrives, moving, isMoving, stepped⟩ := stepped
  split at stepped
  next => contradiction
  next =>
    obtain rfl := Option.some.inj stepped
    refine ⟨process, moving, isMoving, isProcess, rfl, rfl, fun sents journal own => ?_⟩
    change (moving.journal.drop process.journal.length).foldl Channels.post net.toBroker = _
    rw [journal, List.drop_left, foldl_post own]

section Processes

variable {workerEnv : WorkerEnvironment} {heartbeatExpiry : Nat} {limits : Limits}
  {timed : TimedNetwork} {event : TimedNetworkEvent} {next : Network} {peer other : ByteString}
  {worker : WorkerEvent} {process moving : MessageWorker}

theorem Moves.isThere (moves : Moves timed.net other process moving next) :
    next.processes moving.identity = some moving := by
  rw [moves.processes, Function.update_self]

/-- Only a process that is there comes to the end of a turn. -/
theorem Moves.noTurn (moves : Moves timed.net other process moving next)
    (elsewhere : peer ≠ moving.identity) :
    TimedNetwork.endsTurn next peer (.process other worker) = false := by
  cases worker with
  | retry | serve => rfl
  | poll input =>
      by_cases same : other = peer
      · simp [TimedNetwork.endsTurn, moves.processes, same, Function.update_of_ne elsewhere]
      · simp [TimedNetwork.endsTurn, same]

/-- Where a process is, it is looked after; elsewhere, nothing changes but that it has left. -/
theorem Attended.moves {sents : List Sent} (punctual : Punctual limits timed event)
    (attended : ∀ peer, Attended workerEnv heartbeatExpiry limits timed peer)
    (moves : Moves timed.net other process moving next)
    (happens : event.event = .process other worker)
    (journal : moving.journal = process.journal ++ sents)
    (own : ∀ sent ∈ sents, sent.identity = moving.identity)
    (here : next.toBroker moving.identity =
        timed.net.toBroker moving.identity ++ wiresOf sents →
      Attended workerEnv heartbeatExpiry limits (timed.advance event next) moving.identity) :
    Attended workerEnv heartbeatExpiry limits (timed.advance event next) peer := by
  have wires := moves.sends sents journal own
  by_cases atPlace : peer = moving.identity
  · exact atPlace ▸ here (by rw [wires, Function.update_self])
  · refine (attended peer).untouched punctual.later moves.broker ?_
      (by rw [wires, Function.update_of_ne atPlace]) (by rw [happens]; rfl)
      (by rw [happens]; exact moves.noTurn atPlace)
    rw [moves.processes, Function.update_of_ne atPlace]
    by_cases same : peer = other
    · exact .inr (by rw [same, Function.update_self])
    · exact .inl (Function.update_of_ne same _ _)

/-- The place of a process is in use. -/
theorem Moves.inUse (moves : Moves timed.net other process moving next) :
    timed.net.InUse other := by
  refine .inl ?_
  rw [Network.connected, moves.wasThere]
  rfl

/-- A worker that sends replies at most goes on. -/
theorem Attended.replies (margin : Margin workerEnv heartbeatExpiry limits)
    (punctual : Punctual limits timed event)
    (attended : ∀ peer, Attended workerEnv heartbeatExpiry limits timed peer)
    (moves : Moves timed.net other process moving next)
    (happens : event.event = .process other worker)
    (keeps : MessageWorker.KeepsSchedule process moving)
    (noTurn : TimedNetwork.endsTurn next other (.process other worker) = false) :
    Attended workerEnv heartbeatExpiry limits (timed.advance event next) peer := by
  obtain ⟨heartbeatAt, identity, sents, journal, replies⟩ := keeps
  have isOther : moving.identity = other :=
    identity.trans ((attended other).identity process moves.wasThere)
  refine Attended.moves punctual attended moves happens journal
    (fun sent member => (replies sent member).1.trans identity.symm) fun longer => ?_
  rw [isOther] at longer ⊢
  refine (attended other).stays margin punctual moves.broker moves.wasThere
    (isOther ▸ moves.isThere) isOther longer (by rw [happens]; rfl) ?_ (.inl heartbeatAt)
    fun ends => ?_
  · refine talks_of_sents ((attended other).used moves.inUse).1 (.inr rfl) fun entry member => ?_
    obtain ⟨_, msg, isMsg⟩ := replies entry member
    exact ⟨some msg, isMsg⟩
  · rw [happens, noTurn] at ends
    contradiction

/-- A heartbeat is a sign of life. -/
theorem isSign_heartbeat (plain : Plain peer) :
    isSign peer [[], mdpwWorker, mdpwHeartbeat] = true := by
  rw [isSign, workerCommand_commandWire plain (by simp)]
  rfl

/-- A worker at the end of a turn of its loop goes on. -/
theorem Attended.turns {input : PollInput} {liveness : Nat}
    (margin : Margin workerEnv heartbeatExpiry limits) (punctual : Punctual limits timed event)
    (attended : ∀ peer, Attended workerEnv heartbeatExpiry limits timed peer)
    (moves : Moves timed.net other process moving next)
    (happens : event.event = .process other (.poll input))
    (beaten : MessageWorker.beat workerEnv { process with liveness := liveness } input =
      some moving) :
    Attended workerEnv heartbeatExpiry limits (timed.advance event next) peer := by
  have clocks := punctual.reads
  rw [happens] at clocks
  obtain ⟨_, early, late⟩ := clocks
  have isOther := (attended other).identity process moves.wasThere
  have plain := ((attended other).used moves.inUse).1
  have noDelivery : TimedNetwork.delivers other event.event = false := by
    rw [happens]
    rfl
  rcases MessageWorker.beat_cases beaten with ⟨isTime, isMoving⟩ | ⟨notYet, isMoving⟩
  · -- the heartbeat is sent, and the next one is for an interval later
    have identity : moving.identity = other := by rw [isMoving]; exact isOther
    have journal : moving.journal =
        process.journal ++ [MessageWorker.bare other mdpwHeartbeat] := by
      rw [isMoving, ← isOther]
    have heartbeatAt : moving.heartbeatAt =
        process.heartbeatAt + workerEnv.heartbeatInterval := by rw [isMoving]
    refine Attended.moves punctual attended moves happens journal
      (fun sent member => by rw [List.mem_singleton.mp member, identity]; rfl) fun longer => ?_
    have one : wiresOf [MessageWorker.bare other mdpwHeartbeat] =
        [[[], mdpwWorker, mdpwHeartbeat]] := rfl
    have sign : [[[], mdpwWorker, mdpwHeartbeat]].any (isSign other) = true := by
      rw [List.any_cons, isSign_heartbeat plain, Bool.true_or]
    rw [one, identity] at longer
    rw [identity]
    refine (attended other).stays margin punctual moves.broker moves.wasThere
      (identity ▸ moves.isThere) identity longer noDelivery ?_ (.inr ⟨sign, ?_⟩) fun _ => .inl sign
    · intro wire member
      rw [List.mem_singleton.mp member]
      exact ⟨_, [], workerCommand_commandWire plain (by simp), .inl rfl⟩
    · dsimp only at isTime
      simp only [nanoseconds] at early ⊢
      omega
  · have identity : moving.identity = other := by rw [isMoving]; exact isOther
    have journal : moving.journal = process.journal ++ [] := by rw [isMoving, List.append_nil]
    refine Attended.moves punctual attended moves happens journal (by simp) fun longer => ?_
    rw [identity] at longer ⊢
    refine (attended other).stays margin punctual moves.broker moves.wasThere
      (identity ▸ moves.isThere) identity longer noDelivery (by simp [wiresOf])
      (.inl (by rw [isMoving])) fun _ => .inr ?_
    dsimp only at notYet
    simp only [nanoseconds] at late ⊢
    omega

/-- A worker connects, and may find that it is time for a heartbeat already. -/
theorem Attended.connects {beats : List Sent} (margin : Margin workerEnv heartbeatExpiry limits)
    (attended : Attended workerEnv heartbeatExpiry limits timed moving.identity)
    (fresh : timed.net.Fresh moving.identity) (sameBroker : next.broker = timed.net.broker)
    (isMoving : next.processes moving.identity = some moving)
    (wires : next.toBroker moving.identity = timed.net.toBroker moving.identity ++
      wiresOf (MessageWorker.bare moving.identity mdpwReady :: beats))
    (areBeats : ∀ sent ∈ beats, sent = MessageWorker.bare moving.identity mdpwHeartbeat)
    (schedule : nanoseconds moving.heartbeatAt ≤
      event.time + nanoseconds workerEnv.heartbeatInterval)
    (brings : moving.identity ∈ TimedNetwork.brings event.event)
    (noDelivery : TimedNetwork.delivers moving.identity event.event = false) :
    Attended workerEnv heartbeatExpiry limits (timed.advance event next) moving.identity := by
  have plain := fresh.1
  have sends := @send_bare mdpwReady (by simp) moving.identity
  rw [wiresOf, List.filterMap_cons, sends, ← wiresOf] at wires
  refine attended.joins margin fresh sameBroker isMoving rfl wires
    ⟨[], workerCommand_commandWire plain (by simp)⟩ ?_ schedule brings noDelivery
  refine talks_of_sents plain (.inl rfl) fun entry member => ⟨none, ?_⟩
  rw [areBeats entry member]
  rfl

/-- A worker that connects anew leaves its identity for a fresh one. -/
theorem Attended.reconnects {input : PollInput} {connected : MessageWorker}
    (margin : Margin workerEnv heartbeatExpiry limits) (punctual : Punctual limits timed event)
    (attended : ∀ peer, Attended workerEnv heartbeatExpiry limits timed peer)
    (moves : Moves timed.net other process moving next)
    (happens : event.event = .process other (.poll input))
    (fresh : timed.net.Fresh input.identity)
    (heartbeatAt : connected.heartbeatAt = input.connect + workerEnv.heartbeatInterval)
    (journal : connected.journal =
      process.journal ++ [MessageWorker.bare input.identity mdpwReady])
    (identity : connected.identity = input.identity)
    (beaten : connected.beat workerEnv input = some moving) :
    Attended workerEnv heartbeatExpiry limits (timed.advance event next) peer := by
  have clocks := punctual.reads
  rw [happens] at clocks
  obtain ⟨connect, early, _⟩ := clocks
  have place : moving.identity = input.identity := by
    rcases MessageWorker.beat_cases beaten with ⟨_, rfl⟩ | ⟨_, rfl⟩ <;> exact identity
  obtain ⟨_, sent⟩ := MessageWorker.beat_sent beaten
  rw [journal, List.append_assoc, List.singleton_append, ← place] at sent
  have areBeats : ∀ entry ∈ (if connected.heartbeatAt ≤ input.beat then
      [MessageWorker.bare connected.identity mdpwHeartbeat] else []),
      entry = MessageWorker.bare moving.identity mdpwHeartbeat := by
    intro entry member
    split at member
    · rw [List.mem_singleton.mp member, identity, place]
    · contradiction
  refine Attended.moves punctual attended moves happens sent ?_ fun longer => ?_
  · intro entry member
    cases List.mem_cons.mp member with
    | inl ready => rw [ready]; rfl
    | inr beat => rw [areBeats entry beat]; rfl
  · refine (attended moving.identity).connects margin (place ▸ fresh) moves.broker moves.isThere
      longer areBeats ?_ ?_ (by rw [happens]; rfl)
    · simp only [nanoseconds] at connect early ⊢
      rcases MessageWorker.beat_cases beaten with ⟨isTime, rfl⟩ | ⟨_, rfl⟩
      · dsimp only
        omega
      · dsimp only
        omega
    · rw [happens, place]
      exact List.mem_singleton_self _

/-- A step of a worker suspects nobody. -/
theorem Attended.processStep (margin : Margin workerEnv heartbeatExpiry limits)
    (punctual : Punctual limits timed event)
    (attended : ∀ peer, Attended workerEnv heartbeatExpiry limits timed peer)
    (happens : event.event = .process other worker)
    (moves : Moves timed.net other process moving next)
    (isMoving : process.step workerEnv worker = some moving) :
    Attended workerEnv heartbeatExpiry limits (timed.advance event next) peer := by
  have isOther := (attended other).identity process moves.wasThere
  rcases MessageWorker.step_cases isMoving with ⟨input, now, rfl, -, handled⟩ |
    ⟨input, rfl, -, polled⟩ | ⟨input, request, rfl, -, served⟩
  · refine Attended.replies margin punctual attended moves happens ?_ rfl
    rcases MessageWorker.handlePostponedAction_cases handled with rfl | ⟨top, -, retried⟩
    · exact .of_journal rfl rfl rfl
    · exact MessageWorker.retry_keepsSchedule retried
  · have goesOn (takes : moving.phase.clock = none ∧ MessageWorker.KeepsSchedule process moving ∨
        ∃ liveness, MessageWorker.beat workerEnv { process with liveness := liveness } input =
          some moving) :
        Attended workerEnv heartbeatExpiry limits (timed.advance event next) peer := by
      rcases takes with ⟨serving, keeps⟩ | ⟨liveness, beaten⟩
      · refine Attended.replies margin punctual attended moves happens keeps ?_
        have same : next.processes other = some moving :=
          (keeps.identity.trans isOther) ▸ moves.isThere
        simp [TimedNetwork.endsTurn, same, serving]
      · exact Attended.turns margin punctual attended moves happens beaten
    by_cases reconnects : process.Reconnects (.poll input)
    · have isFresh := punctual.fresh
      rw [happens] at isFresh
      have fresh := isFresh process moves.wasThere reconnects
      cases MessageWorker.poll_turned polled with
      | request request phase heartbeatAt identity journal =>
          exact goesOn (.inl ⟨by rw [phase]; rfl, .of_journal heartbeatAt identity journal⟩)
      | stays liveness beaten => exact goesOn (.inr ⟨liveness, beaten⟩)
      | reconnects connected heartbeatAt journal identity beaten =>
          exact Attended.reconnects margin punctual attended moves happens fresh heartbeatAt journal
            identity beaten
    · exact goesOn (poll_stays reconnects polled)
  · exact Attended.replies margin punctual attended moves happens
      (MessageWorker.serve_keepsSchedule served) rfl

/-- A new worker is about to be heard of. -/
theorem Attended.start {identity : ByteString} {connect handle : Int}
    (margin : Margin workerEnv heartbeatExpiry limits) (punctual : Punctual limits timed event)
    (attended : ∀ peer, Attended workerEnv heartbeatExpiry limits timed peer)
    (happens : event.event = .start identity connect handle)
    (started : MessageWorker.start workerEnv identity connect handle = some process) :
    Attended workerEnv heartbeatExpiry limits
      (timed.advance event (timed.net.moved identity [] process)) peer := by
  have fresh := punctual.fresh
  have clocks := punctual.reads
  rw [happens] at fresh clocks
  have schedule := MessageWorker.start_heartbeatAt started
  obtain ⟨_, _, _, rfl, journal⟩ := MessageWorker.steady_start started
  have noDelivery (peer : ByteString) : TimedNetwork.delivers peer event.event = false := by
    rw [happens]
    rfl
  have wires : (timed.net.moved process.identity [] process).toBroker =
      Function.update timed.net.toBroker process.identity
        (timed.net.toBroker process.identity ++
          wiresOf [MessageWorker.bare process.identity mdpwReady]) := by
    have own : ∀ sent ∈ [MessageWorker.bare process.identity mdpwReady],
        sent.identity = process.identity := fun sent member => by
      rw [List.mem_singleton.mp member]
      rfl
    rw [Network.moved, journal, List.length_nil, List.drop_zero]
    exact foldl_post own _
  by_cases same : peer = process.identity
  · subst same
    refine (attended process.identity).connects margin fresh rfl (Function.update_self _ _ _)
      (by rw [wires, Function.update_self]) (by simp) ?_ ?_ (noDelivery process.identity)
    · rw [schedule]
      simp only [ReadsClock, nanoseconds] at clocks ⊢
      omega
    · rw [happens]
      exact List.mem_singleton_self _
  · refine (attended peer).untouched punctual.later rfl (.inl ?_) ?_ (noDelivery peer) ?_
    · change Function.update (Function.update timed.net.processes process.identity none)
        process.identity (some process) peer = _
      rw [Function.update_of_ne same, Function.update_of_ne same]
    · rw [wires, Function.update_of_ne same]
    · rw [happens]
      rfl

end Processes

/-! ## Runs -/

section Runs

variable {env : Environment} {workerEnv : WorkerEnvironment} {heartbeatExpiry : Nat}
  {limits : Limits} {timed next : TimedNetwork}

/-- What holds of the network between its steps. -/
structure AllAttended (workerEnv : WorkerEnvironment) (heartbeatExpiry : Nat) (limits : Limits)
    (timed : TimedNetwork) : Prop where
  accounted : timed.net.broker.Accounted
  expiry : timed.net.broker.workers.heartbeatExpiry = heartbeatExpiry
  attended : ∀ peer, Attended workerEnv heartbeatExpiry limits timed peer

/-- Every step in time suspects nobody. -/
theorem AllAttended.step {event : TimedNetworkEvent}
    (all : AllAttended workerEnv heartbeatExpiry limits timed)
    (margin : Margin workerEnv heartbeatExpiry limits) (punctual : Punctual limits timed event)
    (stepped : timed.step env workerEnv event = some next) :
    AllAttended workerEnv heartbeatExpiry limits next := by
  obtain ⟨net, isStep, rfl⟩ := Option.map_eq_some_iff.mp stepped
  have broker (isBroker : timed.net.brokerStep env event.event = some net) :
      AllAttended workerEnv heartbeatExpiry limits (timed.advance event net) := by
    obtain ⟨brokerEvent, _, _, isEvent, _, moves, _, processes, wires, _⟩ :=
      brokerStep_spec all.accounted isBroker
    exact ⟨all.accounted.step moves, (MessageBroker.heartbeatExpiry_step moves).trans all.expiry,
      fun peer => .brokerStep margin all.attended punctual all.expiry isEvent moves processes wires⟩
  cases happens : event.event with
  | start peer connect handle =>
      rw [happens, Network.step] at isStep
      split at isStep
      next => contradiction
      next =>
        obtain ⟨process, started, rfl⟩ := Option.map_eq_some_iff.mp isStep
        exact ⟨all.accounted, all.expiry,
          fun other => .start margin punctual all.attended happens started⟩
  | process peer worker =>
      rw [happens] at isStep
      obtain ⟨_, _, isMoving, moves⟩ := processStep_moves isStep
      exact ⟨moves.broker ▸ all.accounted, moves.broker ▸ all.expiry,
        fun other => .processStep margin punctual all.attended happens moves isMoving⟩
  | deliver | client | timer | segment =>
      rw [happens] at isStep
      exact broker (happens ▸ isStep)

theorem allAttended_new (sessions : SharedMemSessionsCache) (start : Int) :
    AllAttended workerEnv heartbeatExpiry limits (.new heartbeatExpiry sessions start) where
  accounted := ⟨rfl, by simp [TimedNetwork.new, Network.new, MessageBroker.handedMsgs,
    MessageBroker.new], by simp [TimedNetwork.new, Network.new, MessageBroker.new]⟩
  expiry := rfl
  attended peer := by
    refine ⟨fun process isProcess => ?_, rfl, by simp [TimedNetwork.new], fun used => ?_⟩
    · exact absurd isProcess (by simp [TimedNetwork.new, Network.new])
    · simp [Network.InUse, Network.connected, TimedNetwork.new, Network.new] at used

theorem allAttended_run {guard : TimedNetwork → TimedNetworkEvent → Prop}
    {sessions : SharedMemSessionsCache} {start : Int} {events : List TimedNetworkEvent}
    (margin : Margin workerEnv heartbeatExpiry limits)
    (inTime : ∀ timed event, guard timed event → Punctual limits timed event)
    (run : Run (TimedNetwork.step env workerEnv) guard (.new heartbeatExpiry sessions start)
      events timed) :
    AllAttended workerEnv heartbeatExpiry limits timed :=
  run.invariant _ (allAttended_new sessions start) fun _ _ _ all admitted stepped =>
    all.step margin (inTime _ _ admitted) stepped

/-- The broker knows whose replies it reads. -/
theorem AllAttended.knowsReplier (all : AllAttended workerEnv heartbeatExpiry limits timed)
    (event : NetworkEvent) : timed.net.KnowsReplier event := by
  cases event with
  | deliver peer clock =>
      intro wire isHead isReply
      obtain ⟨rest, whole⟩ := List.head?_eq_some_iff.mp isHead
      obtain ⟨plain, _, _, watched⟩ :=
        (all.attended peer).used (.inr (by rw [whole]; exact List.cons_ne_nil _ _))
      have address : peerAddress peer = peer := by
        rw [peerAddress, plain.recvPart_eq, plain.cStr_eq]
      rw [address]
      cases watched.knows with
      | joining unknown ready others isWhole joins talks =>
          obtain ⟨rfl, _⟩ := List.cons.inj (whole.symm.trans isWhole)
          obtain ⟨client, reads⟩ := joins
          rw [isReply_eq reads] at isReply
          exact absurd isReply (by decide)
      | known expiry isHeld _ _ =>
          obtain ⟨worker, registered, _⟩ := Option.map_eq_some_iff.mp isHeld
          exact WorkerContainer.exists_of_get registered
  | start | process | client | timer | segment => trivial

/-- No worker is suspected that is there: in every run in time, the broker holds each connected
worker beyond the present, unless it is about to hear of it for the first time; and it knows the
worker of each reply that it may read. -/
theorem none_suspected {sessions : SharedMemSessionsCache} {start : Int}
    {events : List TimedNetworkEvent} (margin : Margin workerEnv heartbeatExpiry limits)
    (run : Run (TimedNetwork.step env workerEnv) (Punctual limits)
      (.new heartbeatExpiry sessions start) events timed) :
    (∀ peer, timed.net.connected peer = true →
      (∃ ready ∈ (timed.net.toBroker peer).head?, Joins peer ready) ∨
        timed.net.broker.workers.exists peer = true) ∧
      ∀ event, timed.net.KnowsReplier event := by
  have all := allAttended_run margin (fun _ _ punctual => punctual) run
  refine ⟨fun peer connected => ?_, all.knowsReplier⟩
  obtain ⟨_, _, _, watched⟩ := (all.attended peer).used (.inl connected)
  cases watched.knows with
  | joining _ ready rest whole joins _ => exact .inl ⟨ready, by rw [whole]; rfl, joins⟩
  | known expiry isHeld _ _ =>
      obtain ⟨worker, registered, _⟩ := Option.map_eq_some_iff.mp isHeld
      exact .inr (WorkerContainer.exists_of_get registered)

end Runs

/-- The broker reads the next message of a worker. -/
def heardAt (time : Int) : TimedNetworkEvent := ⟨time, .deliver (text "w1") ⟨time, time, time⟩⟩

/-- A worker without postponed actions begins to wait. -/
def waitsFrom (time : Int) : TimedNetworkEvent :=
  ⟨time, .process (text "w1") (.retry MessageWorker.postpones)⟩

/-- It has waited in vain. -/
def beatsAt (clock : Int) : TimedNetworkEvent :=
  ⟨nanoseconds clock, .process (text "w1") (.poll ⟨none, text "w2", clock, clock, clock⟩)⟩

/-- A worker with nothing to do sends three heartbeats, and the timer of the broker comes when
the lease of its connection alone would have run out. -/
def beatingEvents : List TimedNetworkEvent :=
  [⟨0, .start (text "w1") 0 0⟩, heardAt 100000000, waitsFrom 100000000, beatsAt 2000,
    heardAt 2200000000, waitsFrom 2200000000, beatsAt 4000,
    heardAt 4200000000, waitsFrom 4200000000, beatsAt 6000,
    heardAt 6200000000, ⟨7000000000, .timer 7000000000⟩]

/-- A worker that does not hear of its broker for a while. -/
def patientEnv : WorkerEnvironment := { MessageWorker.pairEnv with heartbeatLiveness := 9 }

theorem none_suspected_beating : ∃ timed : TimedNetwork,
    Run (TimedNetwork.step (sampleEnv []) patientEnv) (Punctual ⟨2100000000, 300000000⟩)
      (.new 6000 (.empty 21600) 0) beatingEvents timed ∧
    timed.net.connected (text "w1") = true ∧
    timed.net.broker.workers.exists (text "w1") = true := by
  obtain ⟨timed, run, observed⟩ := Run.exists_of_exec
    (fun timed : TimedNetwork => decide (timed.net.connected (text "w1") = true ∧
      timed.net.toBroker (text "w1") = []))
    (by decide +kernel : (exec (TimedNetwork.step (sampleEnv []) patientEnv)
      (Punctual ⟨2100000000, 300000000⟩) (.new 6000 (.empty 21600) 0) beatingEvents).any _ = true)
  obtain ⟨connected, silent⟩ := of_decide_eq_true observed
  have margin : Margin patientEnv 6000 ⟨2100000000, 300000000⟩ :=
    ⟨by decide, by decide, by decide, by decide⟩
  refine ⟨timed, run, connected, ((none_suspected margin run).1 _ connected).resolve_left ?_⟩
  rintro ⟨ready, isHead, _⟩
  rw [silent] at isHead
  contradiction

end Cdcm.System
