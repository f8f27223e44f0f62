import Cdcm.System.Underway

/-!
# Agreement on idle workers

The broker takes a worker for idle when it hears a `READY` or a `REPLY` of it.  A worker that
it takes for idle should have nothing to do, and each request should make its worker idle
again once.  A late reply to an action that was postponed breaks both.
-/

namespace Cdcm.System

open Json Protocol Zmq Backend Frontend SessionsCache Machine

namespace Network

variable {env : Environment} {workerEnv : WorkerEnvironment} {net next : Network}

/-! ## Steps of the broker -/

section Broker

variable {peer : ByteString} {broker : MessageBroker}

@[simp] theorem advance_broker : (net.advance broker).broker = broker := rfl

@[simp] theorem advance_processes : (net.advance broker).processes = net.processes := rfl

@[simp] theorem advance_toBroker : (net.advance broker).toBroker = net.toBroker := rfl

@[simp] theorem advance_freed : (net.advance broker).freed = net.freed := rfl

/-- What the broker does with a message or without one: it sends no request, and takes a worker
for idle again when it takes a reply of it from the channel. -/
structure Hears (net : Network) (toBroker : Channels) (broker : MessageBroker) : Prop where
  tells : MessageBroker.TellsOnly net.broker broker
  known : ∀ peer, broker.workers.exists peer = true →
    net.broker.workers.exists peer = true ∨ net.toBroker peer ≠ []
  waiting : ∀ peer, toBroker peer ≠ [] → net.toBroker peer ≠ []
  orderly : ∀ peer, Orderly broker peer (toBroker peer)
  keepsIdle : ∀ peer, busy broker peer = true → busy net.broker peer = true
  replies : ∀ peer, repliesIn peer (net.toBroker peer) + (busy broker peer).toNat =
    repliesIn peer (toBroker peer) + (busy net.broker peer).toNat

/-- A message that carries no request is none of the requests that are counted. -/
theorem request_of_tells {entry : Traffic} (tells : entry.Tells) : entry.request = none := by
  cases entry with
  | command | handed => rfl
  | sent socket msg workers =>
      cases socket with
      | external => rfl
      | internal =>
          obtain ⟨worker, command, isCommand, rfl⟩ := tells msg workers rfl
          have other : cStr command ≠ mdpwRequest := by
            simp only [List.mem_cons, List.not_mem_nil, or_false] at isCommand
            rcases isCommand with rfl | rfl <;> decide
          obtain ⟨_, _, _, _, none⟩ := MessageBroker.request_workerMessage_of_ne other workers
          exact none

/-- The requests of the broker so far, behind what it has appended to its journal. -/
theorem asked_advance {sent : List Traffic}
    (journal : broker.journal = net.broker.journal ++ sent) :
    (net.advance broker).asked peer = net.asked peer +
      sent.countP fun entry => entry.request.any fun target => target.1 = peer := by
  rw [asked, asked, ← List.countP_append, ← journal]
  rfl

/-- A handler of the broker keeps the invariant. -/
theorem Inv.hears {toBroker : Channels} {freed : ByteString → Nat} (inv : Inv workerEnv net)
    (hears : net.Hears toBroker broker)
    (frees : ∀ peer, freed peer + (busy broker peer).toNat =
      net.freed peer + (busy net.broker peer).toNat) :
    Inv workerEnv { { net with toBroker := toBroker }.advance broker with freed := freed } := by
  obtain ⟨sent, journal, tells⟩ := hears.tells
  have same (peer : ByteString) : requestsIn
      ((broker.journal.drop net.broker.journal.length).foldl Channels.route net.toWorker peer) =
        requestsIn (net.toWorker peer) := by
    rw [journal, List.drop_left, requestsIn_foldl_route tells]
  have asks (peer : ByteString) : (net.advance broker).asked peer = net.asked peer := by
    have none : (sent.countP fun entry => entry.request.any fun target => target.1 = peer) = 0 :=
      List.countP_eq_zero.mpr fun entry member => by simp [request_of_tells (tells entry member)]
    rw [asked_advance journal, none, add_zero]
  constructor
  · intro peer used
    rcases used with connected | known | waiting
    · exact inv.plain peer (.inl connected)
    · exact inv.plain peer (.inr (hears.known peer known))
    · exact inv.plain peer (.inr (.inr (hears.waiting peer waiting)))
  · exact inv.process
  · exact fun peer noProcess => (same peer).trans (inv.gone peer noProcess)
  · exact hears.orderly
  · intro peer
    have before := inv.count peer
    have replies := hears.replies peer
    simp only [underway, advance, same] at before ⊢
    omega
  · intro peer
    have before := inv.asked peer
    have now := frees peer
    rw [← asks peer] at before
    change (net.advance broker).asked peer = freed peer + (busy broker peer).toNat
    omega

/-- Without a message of a worker, no worker becomes busy or idle. -/
theorem Inv.hearsNothing (inv : Inv workerEnv net)
    (tells : MessageBroker.TellsOnly net.broker broker)
    (same : ∀ peer, busy broker peer = busy net.broker peer)
    (unknown : ∀ peer, net.broker.workers.get peer = none → broker.workers.get peer = none) :
    net.Hears net.toBroker broker where
  tells := tells
  known peer known := by
    rw [WorkerContainer.exists_iff] at known ⊢
    cases found : net.broker.workers.get peer with
    | none => rw [unknown peer found] at known; contradiction
    | some worker => exact .inl rfl
  waiting _ waiting := waiting
  orderly peer := (inv.orderly peer).imp id fun ⟨absent, joining⟩ => ⟨unknown peer absent, joining⟩
  keepsIdle peer isBusy := same peer ▸ isBusy
  replies peer := by rw [same]

/-- What a message of a worker does to the others. -/
theorem Inv.hearsFrom {wire : List ByteString} {rest : List (List ByteString)}
    {command client : ByteString} {clock : WorkerClock} {call : Option DispatchCall}
    (inv : Inv workerEnv net) (whole : net.toBroker peer = wire :: rest)
    (reads : workerCommand (peer :: wire) = some ⟨peer, command, client⟩)
    (handled : net.broker.handle env (.worker (peer :: wire) clock) = some (broker, call))
    (spoken : ∀ wire ∈ rest, Speaks peer wire)
    (keepsIdle : busy broker peer = true → busy net.broker peer = true)
    (reply : (busy net.broker peer).toNat =
      (busy broker peer).toNat + if isReply peer wire then 1 else 0) :
    net.Hears (net.toBroker.pop peer) broker := by
  have processed := MessageBroker.handle_worker_command reads handled
  have others (other : ByteString) (different : other ≠ peer) :
      broker.workers.get other = net.broker.workers.get other := by
    rw [processed.get, if_neg different]
  have sameBusy (other : ByteString) (different : other ≠ peer) :
      busy broker other = busy net.broker other := by
    rw [busy, busy, others other different]
  have popped : net.toBroker.pop peer peer = rest := by
    rw [Channels.pop, Function.update_self, whole, List.tail_cons]
  have kept (other : ByteString) (different : other ≠ peer) :
      net.toBroker.pop peer other = net.toBroker other := Function.update_of_ne different _ _
  have waits : net.toBroker peer ≠ [] := whole ▸ List.cons_ne_nil _ _
  constructor
  · exact MessageBroker.handle_tells handled
  · intro other known
    by_cases same : other = peer
    · exact .inr (same ▸ waits)
    · rw [WorkerContainer.exists_iff, others other same] at known
      exact .inl (WorkerContainer.exists_iff.mpr known)
  · intro other waiting
    by_cases same : other = peer
    · exact same ▸ waits
    · rwa [kept other same] at waiting
  · intro other
    by_cases same : other = peer
    · rw [same, popped]
      exact .inl spoken
    · rw [kept other same, Orderly, others other same]
      exact inv.orderly other
  · intro other isBusy
    by_cases same : other = peer
    · exact same ▸ keepsIdle (same ▸ isBusy)
    · rwa [sameBusy other same] at isBusy
  · intro other
    by_cases same : other = peer
    · rw [same, popped, whole, repliesIn_cons, reply]
      omega
    · rw [kept other same, sameBusy other same]

/-- The broker takes the oldest message of a worker: it knows the worker then, and takes it for
idle behind a reply. -/
theorem Inv.delivers {wire : List ByteString} {rest : List (List ByteString)}
    {clock : WorkerClock} {call : Option DispatchCall} (inv : Inv workerEnv net)
    (whole : net.toBroker peer = wire :: rest)
    (handled : net.broker.handle env (.worker (peer :: wire) clock) = some (broker, call)) :
    net.Hears (net.toBroker.pop peer) broker := by
  cases inv.orderly peer with
  | inl speaks =>
      rw [whole, List.forall_mem_cons] at speaks
      obtain ⟨⟨client, speaks⟩, spoken⟩ := speaks
      rcases speaks with reads | ⟨named, reads⟩
      · have processed := (MessageBroker.handle_worker_command reads handled).get peer
        rw [if_pos rfl, MessageBroker.afterCommand, MessageBroker.commanded_heartbeat] at processed
        have same : busy broker peer = busy net.broker peer := by
          rw [busy, busy, processed]
          cases net.broker.workers.get peer <;> rfl
        refine inv.hearsFrom whole reads handled spoken (same ▸ id) ?_
        rw [isReply_eq reads, same]
        rfl
      · have isReply : isReply peer wire = true := isReply_eq reads
        -- a reply is underway, so the worker is busy
        have count := inv.count peer
        rw [underway, whole, repliesIn_cons, if_pos isReply] at count
        have wasBusy : busy net.broker peer = true := by
          cases isBusy : busy net.broker peer with
          | true => rfl
          | false => rw [isBusy, Bool.toNat_false] at count; omega
        have processed := (MessageBroker.handle_worker_command reads handled).get peer
        rw [if_pos rfl, MessageBroker.afterCommand, MessageBroker.commanded_reply] at processed
        have nowIdle : busy broker peer = false := by
          rw [busy, processed]
          cases registered : net.broker.workers.get peer with
          | none => simp [busy, registered] at wasBusy
          | some worker => simp [named]
        refine inv.hearsFrom whole reads handled spoken (fun _ => wasBusy) ?_
        rw [isReply, wasBusy, nowIdle]
        rfl
  | inr joining =>
      obtain ⟨unknown, ready, others, same, ⟨client, reads⟩, spoken⟩ := joining
      obtain ⟨rfl, rfl⟩ := List.cons.inj (whole.symm.trans same)
      have processed := (MessageBroker.handle_worker_command reads handled).get peer
      rw [if_pos rfl, MessageBroker.afterCommand, MessageBroker.commanded_ready, unknown]
        at processed
      have nowIdle : busy broker peer = false := by
        rw [busy, processed]
        rfl
      have notBusy : busy net.broker peer = false := by
        rw [busy, unknown]
        rfl
      refine inv.hearsFrom whole reads handled spoken (fun isBusy => ?_) ?_
      · rw [nowIdle] at isBusy
        contradiction
      · rw [isReply_eq reads, nowIdle, notBusy]
        rfl

/-- A purge keeps the workers that are busy. -/
theorem busy_purged {now : Int} (purged : broker.workers = net.broker.workers.purged now)
    (peer : ByteString) : busy broker peer = busy net.broker peer := by
  rw [busy, busy, purged, WorkerContainer.get_purged]
  cases found : net.broker.workers.get peer with
  | none => rfl
  | some worker =>
      rw [Option.filter_some]
      cases idle : worker.idle with
      | false => simp [WorkerContainer.expired, idle]
      | true => split <;> simp [idle]

theorem toNat_frees {was now : Bool} (keepsIdle : now = true → was = true) (count : Nat) :
    (count + if was && !now then 1 else 0) + now.toNat = count + was.toNat := by
  cases now with
  | true => simp [keepsIdle rfl]
  | false => cases was <;> rfl

/-- Handling an event keeps the invariant, up to the dispatch behind it. -/
theorem Inv.heard {event : NetworkEvent} {mid : Network} {call : Option DispatchCall}
    (inv : Inv workerEnv net) (heard : net.heard env event = some (mid, call)) :
    Inv workerEnv mid := by
  simp only [Network.heard, Option.bind_eq_bind, Option.bind_eq_some_iff, Prod.exists,
    Option.pure_def, Option.some.injEq, Prod.mk.injEq] at heard
  obtain ⟨brokerEvent, isEvent, broker, handledCall, handled, rfl, _⟩ := heard
  have hears : net.Hears (net.received event).toBroker broker := by
    cases event with
    | start | process => contradiction
    | deliver peer clock =>
        obtain ⟨wire, isHead, rfl⟩ := Option.map_eq_some_iff.mp isEvent
        obtain ⟨rest, whole⟩ := List.head?_eq_some_iff.mp isHead
        exact inv.delivers whole handled
    | client frames input =>
        obtain rfl := Option.some.inj isEvent
        have workers := (MessageBroker.handle_client handled).workers
        refine inv.hearsNothing (MessageBroker.handle_tells handled) (fun peer => ?_) fun peer => ?_
        · rw [busy, busy, workers]
        · rw [workers]
          exact id
    | timer now =>
        obtain rfl := Option.some.inj isEvent
        obtain ⟨_, sent, isNext, _⟩ := MessageBroker.handle_timer handled
        have purged : broker.workers = net.broker.workers.purged now := by rw [isNext]
        refine inv.hearsNothing (MessageBroker.handle_tells handled) (busy_purged purged) ?_
        intro peer unknown
        rw [purged, WorkerContainer.get_purged, unknown]
        rfl
    | segment sessions =>
        obtain rfl := Option.some.inj isEvent
        obtain ⟨rfl, _⟩ := Prod.mk.inj (Option.some.inj handled)
        exact inv.hearsNothing (.of_journal rfl) (fun _ => rfl) fun _ => id
  have sameNet : net.received event = { net with toBroker := (net.received event).toBroker } := by
    cases event <;> rfl
  rw [sameNet]
  refine inv.hears hears fun peer => ?_
  exact toNat_frees (hears.keepsIdle peer) (net.freed peer)

/-- A turn of the dispatch loop keeps the invariant, if it selects a connected worker that is
idle. -/
theorem Inv.turn {id : ByteString} {front : Zmsg × ByteString}
    {rest : List (Zmsg × ByteString)} {worker : Worker} (inv : Inv workerEnv net)
    (turned : MessageBroker.DispatchTurned net.broker id front rest worker broker)
    (idle : worker.idle = true) (reaches : net.connected worker.identity = true) :
    Inv workerEnv (net.advance broker) := by
  have plain := inv.plain worker.identity (.inl reaches)
  have routes (peer : ByteString) : requestsIn ((net.advance broker).toWorker peer) =
      requestsIn (net.toWorker peer) + if peer = worker.identity then 1 else 0 := by
    rw [advance, turned.journal, List.drop_left]
    exact requestsIn_route_request plain turned.framed
  have wasIdle := busy_eq_false turned.registered idle
  have isBusy : busy broker worker.identity = true := by
    rw [busy, turned.get, if_pos rfl]
    rfl
  have others (peer : ByteString) (different : peer ≠ worker.identity) :
      broker.workers.get peer = net.broker.workers.get peer := by
    rw [turned.get, if_neg different]
  constructor
  · intro peer used
    by_cases same : peer = worker.identity
    · exact same ▸ plain
    · rw [WorkerContainer.exists_iff, advance_broker, others peer same,
        ← WorkerContainer.exists_iff] at used
      exact inv.plain peer used
  · exact inv.process
  · intro peer noProcess
    rw [advance_processes] at noProcess
    have distinct : peer ≠ worker.identity := by
      rintro rfl
      rw [connected, noProcess] at reaches
      contradiction
    rw [routes, if_neg distinct, inv.gone peer noProcess]
  · intro peer
    rw [advance_toBroker, advance_broker]
    cases inv.orderly peer with
    | inl speaks => exact .inl speaks
    | inr joining =>
        have distinct : peer ≠ worker.identity := by
          rintro rfl
          rw [turned.registered] at joining
          cases joining.1
        exact .inr ((others peer distinct).symm ▸ joining)
  · intro peer
    have before := inv.count peer
    rw [underway] at before ⊢
    rw [routes, advance_processes, advance_toBroker, advance_broker]
    by_cases same : peer = worker.identity
    · obtain ⟨process, isProcess⟩ := Option.isSome_iff_exists.mp reaches
      rw [same, wasIdle, isProcess, Option.elim_some, Bool.toNat_false] at before
      rw [same, isBusy, if_pos rfl, isProcess, Option.elim_some, Bool.toNat_true]
      omega
    · rw [if_neg same, add_zero, busy, others peer same]
      exact before
  · intro peer
    have before := inv.asked peer
    have isRequest : (Traffic.sent .internal (MessageBroker.workerMessage worker mdpwRequest []
        (some front.1)) net.broker.workers).request = some (worker.identity, front.1) := by
      rw [MessageBroker.request_workerMessage, plain.cStr_eq]
    rw [asked_advance turned.journal, List.countP_singleton, isRequest, Option.any_some,
      advance_broker, advance_freed, before]
    by_cases same : peer = worker.identity
    · rw [same, wasIdle, isBusy]
      simp
    · have distinct : ¬ worker.identity = peer := Ne.symm same
      simp [distinct, busy, others peer same]

/-- What the dispatch loop finds in front of it keeps the invariant. -/
theorem Inv.purgedFor {now : Int} {call : DispatchCall} (inv : Inv workerEnv net) :
    Inv workerEnv (net.advance (net.broker.purgedFor now call)) := by
  have sameBusy := @busy_purged net (net.broker.purgedFor now call) now rfl
  have hears := inv.hearsNothing (.of_journal (MessageBroker.journal_purgedFor now call))
    sameBusy fun peer unknown => by
      rw [MessageBroker.purgedFor, WorkerContainer.get_purged, unknown]
      rfl
  refine inv.hears hears fun peer => ?_
  rw [← sameBusy peer]
  rfl

/-- Whom the turns of a dispatch select is a matter of the processes alone. -/
theorem TurnsReach.of_processes {other : Network} (same : other.processes = net.processes)
    {id : ByteString} {pending : List (Zmsg × ByteString)}
    (reaches : net.TurnsReach id pending broker) : other.TurnsReach id pending broker := by
  induction pending generalizing broker with
  | nil => trivial
  | cons front rest ih =>
      refine ⟨fun worker selected => ?_, fun next turned => ih (reaches.2 next turned)⟩
      rw [connected, same]
      exact reaches.1 worker selected

/-- What every turn of a dispatch keeps: the invariant, and the condition on the turns to come. -/
structure Turning (workerEnv : WorkerEnvironment) (net : Network) (id : ByteString)
    (pending : List (Zmsg × ByteString)) (broker : MessageBroker) : Prop where
  journal : ∃ appended, broker.journal = net.broker.journal ++ appended
  inv : Inv workerEnv (net.advance broker)
  serves : MessageBroker.TurnsServeIdle id pending broker
  reaches : net.TurnsReach id pending broker

theorem Turning.turn {id : ByteString} {front : Zmsg × ByteString}
    {rest : List (Zmsg × ByteString)} {state : MessageBroker} {worker : Worker}
    (turning : Turning workerEnv net id (front :: rest) state)
    (turned : MessageBroker.DispatchTurned state id front rest worker broker) :
    Turning workerEnv net id rest broker := by
  obtain ⟨⟨appended, journal⟩, inv, serves, reaches⟩ := turning
  have longer := turned.journal
  have idle := (MessageBroker.selectWorker_idle turned.selected).mpr serves.1
  have kept := Inv.turn inv turned idle (reaches.1 worker turned.selected)
  have advances : (net.advance state).advance broker = net.advance broker := by
    simp only [advance, longer, journal, List.append_assoc, List.drop_left, List.foldl_append]
    rw [← List.append_assoc, ← journal, List.drop_left]
  rw [advances] at kept
  rw [journal, List.append_assoc] at longer
  exact ⟨⟨_, longer⟩, kept, serves.2 broker turned.turned, reaches.2 broker turned.turned⟩

/-- A dispatch keeps the invariant, if its turns select connected workers that are idle. -/
theorem Inv.dispatch {now : Int} {call : DispatchCall} (inv : Inv workerEnv net)
    (serves : net.broker.DispatchServesIdle now call)
    (reaches : net.DispatchReaches net.broker now call)
    (dispatched : net.broker.serviceDispatch now call = some broker) :
    Inv workerEnv (net.advance broker) := by
  have purged := @Inv.purgedFor workerEnv net now call inv
  have journal := @MessageBroker.journal_purgedFor net.broker now call
  have result := MessageBroker.serviceDispatch_invariant (Turning workerEnv net call.id)
    (fun _ _ _ _ _ turning turned => turning.turn turned)
    (fun any => ⟨⟨[], by rw [journal, List.append_nil]⟩, purged, serves any, reaches any⟩)
    dispatched
  rcases result with ⟨rfl, _⟩ | turning
  · exact purged
  · exact turning.inv

/-- What the broker does keeps the invariant. -/
theorem Inv.brokerStep {event : NetworkEvent} (inv : Inv workerEnv net)
    (serves : net.ServesIdle env event) (admits : net.AdmitsBroker env event)
    (stepped : net.brokerStep env event = some next) : Inv workerEnv next := by
  simp only [Network.brokerStep, Option.bind_eq_bind, Option.bind_eq_some_iff, Prod.exists]
    at stepped
  obtain ⟨brokerEvent, isEvent, behind, call, heard, stepped⟩ := stepped
  have inv := inv.heard heard
  cases call with
  | none => exact Option.some.inj stepped ▸ inv
  | some call =>
      simp only [Option.bind_eq_some_iff, Option.pure_def, Option.some.injEq] at stepped
      obtain ⟨broker, dispatched, rfl⟩ := stepped
      simp only [Network.heard, Option.bind_eq_bind, Option.bind_eq_some_iff, Prod.exists,
        Option.pure_def, Option.some.injEq, Prod.mk.injEq] at heard
      obtain ⟨sameEvent, isSame, handledBroker, handledCall, handled, rfl, rfl⟩ := heard
      obtain rfl := Option.some.inj (isEvent.symm.trans isSame)
      have serves := serves brokerEvent isEvent _ handled call rfl
      have reaches := admits brokerEvent isEvent _ handled call rfl
      have sameProcesses : (net.received event).processes = net.processes := by
        cases event <;> rfl
      exact inv.dispatch serves (fun any => .of_processes (by exact sameProcesses) (reaches any))
        dispatched

end Broker

/-- A step that meets the condition keeps the invariant. -/
theorem Inv.step {event : NetworkEvent} (inv : Inv workerEnv net)
    (serves : net.ServesIdle env event) (admits : net.Admits env workerEnv event)
    (stepped : net.step env workerEnv event = some next) : Inv workerEnv next := by
  cases event with
  | start peer connect handle =>
      rw [Network.step] at stepped
      split at stepped
      next => contradiction
      next =>
        obtain ⟨process, started, rfl⟩ := Option.map_eq_some_iff.mp stepped
        exact inv.start admits started
  | process peer event => exact inv.processStep admits stepped
  | deliver | client => exact inv.brokerStep serves admits stepped
  | timer now =>
      refine inv.brokerStep serves ?_ stepped
      intro brokerEvent isEvent result handled call isCall
      obtain rfl := Option.some.inj isEvent
      rw [(MessageBroker.handle_timer handled).1] at isCall
      contradiction
  | segment sessions =>
      refine inv.brokerStep serves ?_ stepped
      intro brokerEvent isEvent result handled call isCall
      obtain rfl := Option.some.inj isEvent
      obtain rfl := Option.some.inj handled
      contradiction

end Network

/-- Broker and workers agree about idle workers in every run whose steps meet the condition,
also in between, where the broker has handled a message and not yet dispatched. -/
theorem workers_agree {env : Environment} {workerEnv : WorkerEnvironment} {heartbeatExpiry : Nat}
    {sessions : SharedMemSessionsCache} {events : List NetworkEvent} {net : Network}
    (run : Run (Network.step env workerEnv)
      (fun net event => net.ServesIdle env event ∧ net.Admits env workerEnv event)
      (.new heartbeatExpiry sessions) events net) :
    net.Agrees ∧ ∀ event mid call, net.heard env event = some (mid, call) → mid.Agrees := by
  have inv : net.Inv workerEnv := run.invariant (Network.Inv workerEnv)
    (Network.inv_new heartbeatExpiry sessions)
    fun _ _ _ inv admitted stepped => inv.step admitted.1 admitted.2 stepped
  exact ⟨inv.agrees, fun event mid call heard => (inv.heard heard).agrees⟩

/-! ## A reply that comes late -/

section Sample

open MessageWorker (postpones succeeds)

/-- A client asks for two actions, and the broker sends the request to a worker. -/
def clientAsks : NetworkEvent :=
  .client [text "c", [], mdpcClient, text "cdcm", lateBody.print none 0]
    ⟨0, 0, 0, fun _ => ⟨0, 1, .succeeds⟩, 0⟩

/-- A worker starts and makes itself known, gets a request and serves it, and the broker hears
of it. -/
def servedEvents (acts : Nat → Backend.ActInput) : List NetworkEvent :=
  [.start (text "w1") 0 0, .deliver (text "w1") ⟨0, 0, 0⟩, clientAsks,
    .process (text "w1") (.retry postpones),
    .process (text "w1")
      (.poll ⟨some (requestWire (text "c") (lateBody.print (some 2) 0)), text "w2", 0, 0, 0⟩),
    .process (text "w1") (.serve ⟨acts, 5000⟩), .deliver (text "w1") ⟨0, 0, 0⟩]

/-- The request of a client makes its worker idle again once. -/
theorem workers_agree_served : ∃ net : Network,
    Run (Network.step lateEnv lateWorkerEnv)
      (fun net event => net.ServesIdle lateEnv event ∧ net.Admits lateEnv lateWorkerEnv event)
      (.new 3000 (.empty 21600)) (servedEvents fun _ => succeeds) net ∧
    net.asked (text "w1") = 1 ∧ net.freed (text "w1") = 1 ∧ net.Agrees := by
  obtain ⟨net, run, counts⟩ := Run.exists_of_exec
    (fun net : Network => decide (net.asked (text "w1") = 1 ∧ net.freed (text "w1") = 1))
    (by decide +kernel : (exec (Network.step lateEnv lateWorkerEnv) (fun net event =>
      net.ServesIdle lateEnv event ∧ net.Admits lateEnv lateWorkerEnv event)
      (.new 3000 (.empty 21600)) (servedEvents fun _ => succeeds)).any _ = true)
  obtain ⟨asked, freed⟩ := of_decide_eq_true counts
  exact ⟨net, run, asked, freed, (workers_agree run).1⟩

/-- The worker postpones the second action. It answers that one when the broker has sent it
another request already. -/
def lateReplyEvents : List NetworkEvent :=
  servedEvents (fun position => if position = 0 then succeeds else postpones) ++
    [clientAsks, .process (text "w1") (.retry succeeds), .deliver (text "w1") ⟨0, 0, 0⟩]

/-- The broker takes a worker for idle that has a request on its channel. -/
theorem late_reply_disagrees : ∃ net : Network,
    Run (Network.step lateEnv lateWorkerEnv) (fun net event => net.ServesIdle lateEnv event)
      (.new 3000 (.empty 21600)) lateReplyEvents net ∧
    (net.broker.workers.get (text "w1")).any Worker.idle = true ∧
    requestsIn (net.toWorker (text "w1")) = 1 ∧ ¬ net.Agrees := by
  obtain ⟨net, run, disagrees⟩ := Run.exists_of_exec
    (fun net : Network => decide ((net.broker.workers.get (text "w1")).any Worker.idle = true ∧
      requestsIn (net.toWorker (text "w1")) = 1))
    (by decide +kernel : (exec (Network.step lateEnv lateWorkerEnv)
      (fun net event => net.ServesIdle lateEnv event) (.new 3000 (.empty 21600))
      lateReplyEvents).any _ = true)
  obtain ⟨idle, waiting⟩ := of_decide_eq_true disagrees
  refine ⟨net, run, idle, waiting, fun agrees => ?_⟩
  obtain ⟨worker, registered, isIdle⟩ := (Option.any_eq_true _ _).mp idle
  rw [(agrees.1 _ worker registered isIdle).1] at waiting
  contradiction

end Sample

end Cdcm.System
