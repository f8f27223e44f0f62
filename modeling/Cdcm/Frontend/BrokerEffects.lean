import Cdcm.Frontend.MessageBroker

/-!
# What the methods of the broker do

One lemma for each method: what it leaves in the worker store, seen as a map, in
the queue and in the journal.  Statements about runs are derived from these and
never unfold the methods again.
-/

namespace Cdcm.Frontend

open Json Protocol SessionsCache Zmq

namespace Traffic

/-- The worker and the payload of a `REQUEST` on the internal socket. -/
def request : Traffic → Option (ByteString × Zmsg)
  | .sent .internal ⟨identity :: [] :: header :: name :: payload⟩ _ =>
      if header = mdpwWorker ∧ name = mdpwRequest then some (identity, ⟨payload⟩)
      else none
  | _ => none

/-- The request that `client_process` handed over. -/
def handedMsg : Traffic → Option Zmsg
  | .handed msg => some msg
  | _ => none

/-- A message that goes out and is no `REQUEST`. -/
def Other (entry : Traffic) : Prop :=
  ∃ socket msg workers, entry = .sent socket msg workers ∧ entry.request = none

end Traffic

namespace WorkerContainer

/-- Whether `purge_workers` culls a worker. -/
def expired (now : Int) (worker : Worker) : Bool :=
  worker.idle && decide (worker.expiry ≤ now)

/-- The store after a purge. -/
def purged (workers : WorkerContainer) (now : Int) : WorkerContainer :=
  ((workers.idleRange workers.idleWorkers).filter fun worker => worker.expiry ≤ now).foldl
    (fun rest worker => (rest.erase worker.identity).1) workers

variable {workers : WorkerContainer}

theorem get_foldl_erase (culled : List Worker) (identity : ByteString) :
    (culled.foldl (fun rest worker => (rest.erase worker.identity).1) workers).get identity =
      if culled.any fun worker => worker.identity = identity then none
      else workers.get identity := by
  induction culled generalizing workers with
  | nil => rfl
  | cons head tail ih =>
      rw [List.foldl_cons, ih, get_erase, List.any_cons]
      by_cases equal : head.identity = identity
      · simp [equal]
      · simp [equal, Ne.symm equal]

/-- A purge removes exactly the idle workers whose expiry has passed. -/
@[simp] theorem get_purged (now : Int) (identity : ByteString) :
    (workers.purged now).get identity =
      (workers.get identity).filter fun worker => !expired now worker := by
  rw [purged, get_foldl_erase]
  cases found : workers.get identity with
  | none => simp
  | some worker =>
      have hasId := identity_of_get found
      have culled : ((workers.idleRange workers.idleWorkers).filter fun other =>
          other.expiry ≤ now).any (fun other => other.identity = identity) =
            expired now worker := by
        rw [Bool.eq_iff_iff, List.any_eq_true]
        simp only [List.mem_filter, mem_idleRange, decide_eq_true_eq, expired,
          Bool.and_eq_true]
        constructor
        · rintro ⟨other, ⟨⟨stored, flag⟩, late⟩, equal⟩
          rw [equal, found] at stored
          obtain rfl := Option.some.inj stored
          exact ⟨flag, late⟩
        · rintro ⟨flag, late⟩
          exact ⟨worker, ⟨⟨hasId ▸ found, flag⟩, late⟩, hasId⟩
      rw [culled, Option.filter_some]
      cases expired now worker <;> rfl

end WorkerContainer

open WorkerContainer

namespace MessageBroker

variable {broker next : MessageBroker}

/-! ## Sending -/

/-- A message that goes out is noted with the worker store of that moment. -/
theorem sendOn_spec {socket : Socket} {msg : Zmsg}
    (sent : broker.sendOn socket msg = some next) :
    next = broker.record (.sent socket msg broker.workers) ∧ msg.send.isSome = true := by
  simp only [sendOn, Option.bind_eq_bind, Option.bind_eq_some_iff, Option.pure_def,
    Option.some.injEq] at sent
  obtain ⟨frames, framed, rfl⟩ := sent
  exact ⟨rfl, by rw [framed]; rfl⟩

theorem workerMessage_eq (worker : Worker) (command : ByteString) (msg : Option Zmsg) :
    workerMessage worker command [] msg =
      ⟨cStr worker.identity :: [] :: mdpwWorker :: cStr command ::
        (msg.getD .empty).partData⟩ := by
  have version : cStr mdpwWorker = mdpwWorker := by decide
  simp [workerMessage, Zmsg.wrap, Zmsg.pushFront, version]

/-- Commands other than `REQUEST` are no requests. -/
theorem request_workerMessage_of_ne {worker : Worker} {command : ByteString}
    (otherCommand : cStr command ≠ mdpwRequest) (workers : WorkerContainer) :
    (Traffic.sent .internal (workerMessage worker command [] none) workers).Other := by
  refine ⟨_, _, _, rfl, ?_⟩
  rw [workerMessage_eq, Traffic.request, if_neg (fun both => otherCommand both.2)]

theorem other_external (msg : Zmsg) (workers : WorkerContainer) :
    (Traffic.sent .external msg workers).Other :=
  ⟨_, _, _, rfl, rfl⟩

/-- A reply of the broker itself to a client, which has an address. -/
def LocalReplyTo (sender : ByteString) (workers : WorkerContainer) (entry : Traffic) : Prop :=
  sender ≠ [] ∧ ∃ client body, entry = .sent .external (localReply sender client body) workers

theorem LocalReplyTo.other {sender : ByteString} {workers : WorkerContainer} {entry : Traffic}
    (reply : LocalReplyTo sender workers entry) : entry.Other := by
  obtain ⟨_, client, body, rfl⟩ := reply
  exact other_external _ _

/-! ## Purging -/

theorem workerDelete_false (worker : Worker) :
    broker.workerDelete worker false =
      some { broker with workers := (broker.workers.erase worker.identity).1 } := rfl

theorem foldlM_workerDelete (culled : List Worker) :
    culled.foldlM (fun broker worker => workerDelete broker worker false) broker =
      some { broker with
        workers := culled.foldl (fun rest worker => (rest.erase worker.identity).1)
          broker.workers } := by
  induction culled generalizing broker with
  | nil => rfl
  | cons head tail ih =>
      rw [List.foldlM_cons, workerDelete_false, Option.bind_eq_bind, Option.bind_some, ih]
      rfl

/-- A purge changes nothing but the worker store. -/
theorem purgeWorkers_eq (now : Int) :
    broker.purgeWorkers now = some { broker with workers := broker.workers.purged now } :=
  foldlM_workerDelete _

/-! ## Deleting and requiring workers -/

/-- What `worker_delete` leaves behind. -/
theorem workerDelete_spec {worker : Worker} {sendDisconnect : Bool}
    (deleted : broker.workerDelete worker sendDisconnect = some next) :
    ∃ sent : List Traffic, next = { broker with
        workers := (broker.workers.erase worker.identity).1
        journal := broker.journal ++ sent } ∧ ∀ entry ∈ sent, entry.Other := by
  cases sendDisconnect with
  | false =>
      obtain rfl := Option.some.inj deleted
      exact ⟨[], by simp, by simp⟩
  | true =>
      simp only [workerDelete, if_true, Option.bind_eq_bind, Option.bind_eq_some_iff,
        Option.pure_def, Option.some.injEq] at deleted
      obtain ⟨told, sent, rfl⟩ := deleted
      obtain ⟨rfl, _⟩ := sendOn_spec sent
      refine ⟨[_], rfl, ?_⟩
      simp only [List.mem_singleton, forall_eq]
      exact request_workerMessage_of_ne (by decide) _

/-- What `worker_require` leaves behind: the identity is registered. -/
theorem workerRequire_spec {now : Int} {identity : ByteString} {worker : Worker}
    (required : broker.workerRequire now identity = some (next, worker)) :
    identity ≠ [] ∧ worker.identity = identity ∧
      ∃ workers : WorkerContainer, next = { broker with workers := workers } ∧
        workers.heartbeatExpiry = broker.workers.heartbeatExpiry ∧
        ∀ other, workers.get other =
          if other = identity then
            some ((broker.workers.get identity).getD
              { Worker.new identity with expiry := broker.workers.expiryFrom now })
          else broker.workers.get other := by
  rw [workerRequire] at required
  split at required
  next => contradiction
  next nonempty =>
    have isIdentity : identity ≠ [] := fun empty => nonempty (by rw [empty]; rfl)
    split at required
    next stored found =>
      simp only [Option.some.injEq, Prod.mk.injEq] at required
      obtain ⟨rfl, rfl⟩ := required
      refine ⟨isIdentity, identity_of_get found, _, rfl, rfl, fun other => ?_⟩
      split
      next equal => rw [equal, found, Option.getD_some]
      next => rfl
    next absent =>
      simp only [Option.some.injEq, Prod.mk.injEq] at required
      obtain ⟨rfl, rfl⟩ := required
      refine ⟨isIdentity, rfl, _, rfl, rfl, fun other => ?_⟩
      rw [get_insert now absent, absent, Option.getD_none]
      rfl

/-! ## Messages of workers -/

/-- What a command makes of the worker of its sender: `current` is the worker
after `worker_require`, and `ready` tells whether it was registered before. -/
def commanded (expiryFrom : Int → Int) (clock : WorkerClock) (command client : ByteString)
    (ready : Bool) (current : Worker) : Option Worker :=
  let refreshed := { current with expiry := expiryFrom clock.update }
  if command = mdpwReady then
    if ready then none else some { refreshed with idle := true }
  else if command = mdpwReply then
    if !ready then none
    else if client = [] then some current
    else some { refreshed with idle := true }
  else if command = mdpwHeartbeat then
    if ready then some refreshed else none
  else if command = mdpwDisconnect then none
  else some current

/-- The commands that `worker_process` has a branch for. -/
def handledCommands : List ByteString :=
  [mdpwReady, mdpwReply, mdpwHeartbeat, mdpwDisconnect]

section Commanded

variable {expiryFrom : Int → Int} {clock : WorkerClock} {client : ByteString}
  {ready : Bool} {current : Worker}

@[simp] theorem commanded_ready :
    commanded expiryFrom clock mdpwReady client ready current =
      if ready then none
      else some { current with expiry := expiryFrom clock.update, idle := true } := rfl

@[simp] theorem commanded_reply :
    commanded expiryFrom clock mdpwReply client ready current =
      if !ready then none
      else if client = [] then some current
      else some { current with expiry := expiryFrom clock.update, idle := true } := rfl

@[simp] theorem commanded_heartbeat :
    commanded expiryFrom clock mdpwHeartbeat client ready current =
      if ready then some { current with expiry := expiryFrom clock.update } else none := rfl

@[simp] theorem commanded_disconnect :
    commanded expiryFrom clock mdpwDisconnect client ready current = none := rfl

/-- A command without a branch leaves the worker that was required. -/
theorem commanded_unhandled {command : ByteString}
    (unhandled : command ∉ handledCommands) :
    commanded expiryFrom clock command client ready current = some current := by
  simp only [handledCommands, List.mem_cons, List.not_mem_nil, or_false, not_or] at unhandled
  obtain ⟨notReady, notReply, notHeartbeat, notDisconnect⟩ := unhandled
  rw [commanded, if_neg notReady, if_neg notReply, if_neg notHeartbeat, if_neg notDisconnect]

end Commanded

/-- A command is one of the handled ones or none of them. -/
theorem command_cases (command : ByteString) :
    command = mdpwReady ∨ command = mdpwReply ∨ command = mdpwHeartbeat ∨
      command = mdpwDisconnect ∨ command ∉ handledCommands := by
  by_cases handled : command ∈ handledCommands
  · simp only [handledCommands, List.mem_cons, List.not_mem_nil, or_false] at handled
    tauto
  · exact .inr (.inr (.inr (.inr handled)))

/-- The commands after which a worker waits for work. -/
def waits (command client : ByteString) (ready : Bool) : Bool :=
  (command = mdpwReady && !ready) || (command = mdpwReply && ready && client ≠ [])

/-- The worker under the sender's identity after a command, from the one before
it. -/
def afterCommand (expiryFrom : Int → Int) (clock : WorkerClock)
    (sender command client : ByteString) (registered : Option Worker) : Option Worker :=
  commanded expiryFrom clock command client registered.isSome
    (registered.getD { Worker.new sender with expiry := expiryFrom clock.insert })

/-- What `worker_process` leaves behind. -/
structure WorkerProcessed (broker : MessageBroker) (clock : WorkerClock)
    (sender command client : ByteString) (next : MessageBroker)
    (call : Option DispatchCall) : Prop where
  nonempty : sender ≠ []
  requests : next.requests = broker.requests
  sessions : next.sessions = broker.sessions
  heartbeatExpiry : next.workers.heartbeatExpiry = broker.workers.heartbeatExpiry
  get : ∀ identity, next.workers.get identity =
    if identity = sender then
      afterCommand broker.workers.expiryFrom clock sender command client
        (broker.workers.get sender)
    else broker.workers.get identity
  call_eq : call =
    if waits command client (broker.workers.get sender).isSome then some ⟨none, []⟩ else none
  journal : ∃ sent : List Traffic,
    next.journal = broker.journal ++ .command sender command :: sent ∧
      ∀ entry ∈ sent, entry.Other

/-- What `worker_waiting` leaves behind, for a registered worker. -/
theorem workerWaiting_spec {clock : WorkerClock} {worker : Worker}
    {call : Option DispatchCall}
    (waiting : broker.workerWaiting clock worker = some (next, call)) :
    call = some ⟨none, []⟩ ∧ ∃ workers : WorkerContainer,
      next = { broker with workers := workers } ∧
      workers.heartbeatExpiry = broker.workers.heartbeatExpiry ∧
      ∀ other, workers.get other =
        if other = worker.identity then
          (broker.workers.get other).map fun worker =>
            { worker with
              idle := true
              expiry := broker.workers.expiryFrom clock.update }
        else broker.workers.get other := by
  simp only [workerWaiting, Option.bind_eq_bind, Option.bind_eq_some_iff, Prod.exists,
    Option.pure_def, Option.some.injEq, Prod.mk.injEq] at waiting
  obtain ⟨workers, modified, updated, rfl, rfl⟩ := waiting
  have idleHeartbeat : (broker.workers.setIdle worker.identity).1.heartbeatExpiry =
      broker.workers.heartbeatExpiry := heartbeatExpiry_modifyIdle _ _
  refine ⟨rfl, workers, rfl, (heartbeatExpiry_modifyById updated).trans idleHeartbeat,
    fun other => ?_⟩
  rw [get_updateExpiration updated, get_setIdle]
  split
  · rw [Option.map_map]
    simp only [expiryFrom, idleHeartbeat]
    rfl
  · rfl

/-- What the branch for a reply of a registered worker leaves behind. -/
theorem forwardReply_spec {clock : WorkerClock} {worker : Worker} {msg : Zmsg}
    {call : Option DispatchCall}
    (forwarded : broker.forwardReply clock worker msg = some (next, call)) :
    next.requests = broker.requests ∧ next.sessions = broker.sessions ∧
      next.workers.heartbeatExpiry = broker.workers.heartbeatExpiry ∧
      (∀ other, next.workers.get other =
        if other = worker.identity then
          (broker.workers.get other).map fun worker =>
            if msg.unwrap.1 = [] then worker
            else { worker with
              idle := true
              expiry := broker.workers.expiryFrom clock.update }
        else broker.workers.get other) ∧
      call = (if msg.unwrap.1 ≠ [] then some ⟨none, []⟩ else none) ∧
      next.journal = broker.journal ++ if msg.unwrap.1 = [] then [] else
        [.sent .external (clientReply msg.unwrap.1 msg.unwrap.2) broker.workers] := by
  rw [forwardReply] at forwarded
  cases unwrapped : msg.unwrap with
  | mk client rest =>
      simp only [unwrapped] at forwarded ⊢
      by_cases empty : client = []
      · rw [if_pos empty] at forwarded
        simp only [Option.pure_def, Option.some.injEq, Prod.mk.injEq] at forwarded
        obtain ⟨rfl, rfl⟩ := forwarded
        refine ⟨rfl, rfl, rfl, fun other => ?_, by simp [empty], by simp [empty]⟩
        simp [empty]
      · rw [if_neg empty] at forwarded
        simp only [Option.bind_eq_bind, Option.bind_eq_some_iff] at forwarded
        obtain ⟨forwarding, sent, waiting⟩ := forwarded
        obtain ⟨rfl, _⟩ := sendOn_spec sent
        obtain ⟨rfl, workers, rfl, sameExpiry, stored⟩ := workerWaiting_spec waiting
        refine ⟨rfl, rfl, sameExpiry, fun other => ?_, by simp [empty], ?_⟩
        · rw [stored other]
          simp [empty, record]
        · rw [if_neg empty]
          rfl

/-- Deleting the worker of the sender, as several branches do. -/
theorem deleted_spec {worker : Worker} {sendDisconnect : Bool}
    {call : Option DispatchCall}
    (deleted : (do return (← broker.workerDelete worker sendDisconnect, none)) =
      some (next, call)) :
    call = none ∧ ∃ sent : List Traffic, next = { broker with
        workers := (broker.workers.erase worker.identity).1
        journal := broker.journal ++ sent } ∧ ∀ entry ∈ sent, entry.Other := by
  simp only [Option.bind_eq_bind, Option.bind_eq_some_iff, Option.pure_def,
    Option.some.injEq, Prod.mk.injEq] at deleted
  obtain ⟨_, deleted, rfl, rfl⟩ := deleted
  exact ⟨rfl, workerDelete_spec deleted⟩

/-- What the branches of `worker_process` leave behind. -/
structure CommandProcessed (broker : MessageBroker) (clock : WorkerClock)
    (sender command client : ByteString) (ready : Bool) (current : Worker)
    (next : MessageBroker) (call : Option DispatchCall) : Prop where
  requests : next.requests = broker.requests
  sessions : next.sessions = broker.sessions
  heartbeatExpiry : next.workers.heartbeatExpiry = broker.workers.heartbeatExpiry
  get : ∀ identity, next.workers.get identity =
    if identity = sender then
      commanded broker.workers.expiryFrom clock command client ready current
    else broker.workers.get identity
  call_eq : call = if waits command client ready then some ⟨none, []⟩ else none
  journal : ∃ sent : List Traffic, next.journal = broker.journal ++ sent ∧
    ∀ entry ∈ sent, entry.Other

theorem processCommand_spec {clock : WorkerClock} {command : ByteString}
    {ready : Bool} {worker current : Worker} {msg : Zmsg} {call : Option DispatchCall}
    (found : broker.workers.get worker.identity = some current)
    (processed : broker.processCommand clock worker.identity ready worker command msg =
      some (next, call)) :
    CommandProcessed broker clock worker.identity command msg.unwrap.1 ready current
      next call := by
  have deletes : ∀ {sendDisconnect : Bool},
      (do return (← broker.workerDelete worker sendDisconnect, none)) = some (next, call) →
      commanded broker.workers.expiryFrom clock command msg.unwrap.1 ready current = none →
      waits command msg.unwrap.1 ready = false →
      CommandProcessed broker clock worker.identity command msg.unwrap.1 ready current
        next call := by
    intro sendDisconnect deleted gone noWait
    obtain ⟨rfl, sent, rfl, others⟩ := deleted_spec deleted
    refine ⟨rfl, rfl, heartbeatExpiry_erase _, fun identity => ?_, by rw [noWait]; rfl,
      sent, rfl, others⟩
    rw [gone, get_erase]
  rw [processCommand] at processed
  by_cases isReady : command = mdpwReady
  · subst isReady
    rw [if_pos rfl] at processed
    cases ready with
    | true => exact deletes processed rfl rfl
    | false =>
        obtain ⟨rfl, workers, rfl, sameExpiry, stored⟩ := workerWaiting_spec processed
        refine ⟨rfl, rfl, sameExpiry, fun identity => ?_, rfl, [], by simp, by simp⟩
        rw [stored]
        split
        next equal => rw [equal, found]; rfl
        next => rfl
  rw [if_neg isReady] at processed
  by_cases isReply : command = mdpwReply
  · subst isReply
    rw [if_pos rfl] at processed
    cases ready with
    | false => exact deletes processed rfl rfl
    | true =>
        obtain ⟨sameRequests, sameSessions, sameExpiry, stored, called, sent⟩ :=
          forwardReply_spec processed
        refine ⟨sameRequests, sameSessions, sameExpiry, fun identity => ?_, ?_, _, sent, ?_⟩
        · rw [stored]
          split
          next equal =>
            rw [equal, found, Option.map_some, commanded, if_neg isReady, if_pos rfl]
            split <;> rfl
          next => rfl
        · rw [called]
          by_cases empty : msg.unwrap.1 = [] <;> simp [waits, empty, isReady]
        · split
          · simp
          · exact fun entry member => List.mem_singleton.mp member ▸ other_external _ _
  rw [if_neg isReply] at processed
  have noWait : waits command msg.unwrap.1 ready = false := by
    simp [waits, isReady, isReply]
  by_cases isHeartbeat : command = mdpwHeartbeat
  · subst isHeartbeat
    rw [if_pos rfl] at processed
    cases ready with
    | false => exact deletes processed rfl noWait
    | true =>
        simp only [if_true, Option.bind_eq_bind, Option.bind_eq_some_iff, Prod.exists,
          Option.pure_def, Option.some.injEq, Prod.mk.injEq] at processed
        obtain ⟨workers, _, updated, rfl, rfl⟩ := processed
        refine ⟨rfl, rfl, heartbeatExpiry_modifyById updated, fun identity => ?_,
          by rw [noWait]; rfl, [], by simp, by simp⟩
        rw [get_updateExpiration updated]
        split
        next equal => rw [equal, found]; rfl
        next => rfl
  rw [if_neg isHeartbeat] at processed
  by_cases isDisconnect : command = mdpwDisconnect
  · subst isDisconnect
    rw [if_pos rfl] at processed
    exact deletes processed rfl noWait
  · rw [if_neg isDisconnect] at processed
    simp only [Option.pure_def, Option.some.injEq, Prod.mk.injEq] at processed
    obtain ⟨rfl, rfl⟩ := processed
    refine ⟨rfl, rfl, rfl, fun identity => ?_, by rw [noWait]; rfl, [], by simp, by simp⟩
    split
    next equal =>
      rw [equal, found, commanded, if_neg isReady, if_neg isReply, if_neg isHeartbeat,
        if_neg isDisconnect]
    next => rfl

/-- What `worker_process` does to the store, the queue and the journal. -/
theorem workerProcess_spec {clock : WorkerClock} {sender part : ByteString}
    {rest : List ByteString} {call : Option DispatchCall}
    (processed : broker.workerProcess clock sender ⟨part :: rest⟩ = some (next, call)) :
    WorkerProcessed broker clock sender (cStr part) (Zmsg.unwrap ⟨rest⟩).1 next call := by
  have enough : ¬ (Zmsg.parts ⟨part :: rest⟩ < 1) := by simp [Zmsg.parts]
  simp only [workerProcess, if_neg enough, Zmsg.popFront_cons, Option.bind_eq_bind,
    Option.bind_eq_some_iff, Prod.exists] at processed
  obtain ⟨required, worker, isRequired, processed⟩ := processed
  obtain ⟨nonempty, rfl, workers, rfl, sameExpiry, stored⟩ := workerRequire_spec isRequired
  have ready : broker.workers.exists worker.identity =
      (broker.workers.get worker.identity).isSome := Bool.eq_iff_iff.mpr exists_iff
  have expiryEq : workers.expiryFrom = broker.workers.expiryFrom := by
    funext now
    rw [expiryFrom, sameExpiry, expiryFrom]
    rfl
  have found := stored worker.identity
  rw [if_pos rfl] at found
  have branch := processCommand_spec found processed
  obtain ⟨sent, appended, others⟩ := branch.journal
  refine ⟨nonempty, branch.requests, branch.sessions, branch.heartbeatExpiry.trans sameExpiry,
    fun identity => ?_, ?_, sent, ?_, others⟩
  · rw [branch.get]
    split
    · rw [expiryEq, afterCommand, ← ready]
      rfl
    · next different => rw [stored, if_neg different]; rfl
  · rw [branch.call_eq, ← ready]
    rfl
  · rw [appended]
    simp [record]

/-! ## Messages of clients -/

/-- A step that only answers a client: the workers and the queue stay as they
are. -/
structure Replies (sender : ByteString) (broker next : MessageBroker) : Prop where
  workers : next.workers = broker.workers
  requests : next.requests = broker.requests
  journal : ∃ sent : List Traffic, next.journal = broker.journal ++ sent ∧
    ∀ entry ∈ sent, LocalReplyTo sender broker.workers entry

variable {sender : ByteString}

theorem Replies.refl (broker : MessageBroker) : Replies sender broker broker :=
  ⟨rfl, rfl, [], by simp, by simp⟩

theorem Replies.trans {last : MessageBroker} (first : Replies sender broker next)
    (second : Replies sender next last) : Replies sender broker last := by
  obtain ⟨sent, appended, replies⟩ := first.journal
  obtain ⟨more, appendedMore, moreReplies⟩ := second.journal
  refine ⟨second.workers.trans first.workers, second.requests.trans first.requests,
    sent ++ more, by rw [appendedMore, appended, List.append_assoc], fun entry member => ?_⟩
  exact (List.mem_append.mp member).elim (replies entry)
    fun new => first.workers ▸ moreReplies entry new

/-- Writing the session cache answers nobody. -/
theorem replies_sessions (sessions : SharedMemSessionsCache) :
    Replies sender broker { broker with sessions := sessions } :=
  ⟨rfl, rfl, [], by simp, by simp⟩

section Client

variable {env : Environment}

theorem getSession_replies (now : Int) (sessionId : ByteString) :
    Replies sender broker (broker.getSession env now sessionId).1 :=
  replies_sessions _

theorem touchSession_replies (now : Int) (hdr : Header) :
    Replies sender broker (broker.touchSession env now hdr) := by
  rw [touchSession]
  split
  · exact replies_sessions _
  · exact .refl broker

theorem sendLocalToClient_replies {resultMessage : ResMsg} {client : ByteString}
    (sent : broker.sendLocalToClient env resultMessage sender client = some next) :
    Replies sender broker next := by
  rw [sendLocalToClient] at sent
  split at sent
  next addressed =>
    simp only [Option.bind_eq_bind, Option.bind_eq_some_iff] at sent
    obtain ⟨body, _, sent⟩ := sent
    obtain ⟨rfl, _⟩ := sendOn_spec sent
    refine ⟨rfl, rfl, [_], rfl, ?_⟩
    simp only [List.mem_singleton, forall_eq]
    exact ⟨addressed.2, client, body, rfl⟩
  · exact Option.some.inj sent ▸ .refl broker

theorem doAct_replies {sess : Option Session} {input : ActInput}
    {actionMessage : ActionMsg} {msgs results : List ResultMsg}
    (acted : broker.doAct env sess input actionMessage msgs = some (next, results)) :
    Replies sender broker next := by
  simp only [doAct, Option.bind_eq_bind, Option.bind_eq_some_iff, Prod.exists,
    Option.pure_def, Option.some.injEq, Prod.mk.injEq] at acted
  obtain ⟨_, _, _, rfl, _⟩ := acted
  exact ⟨rfl, rfl, [], by simp, by simp⟩

/-- Executing known actions in sequence answers nobody by itself. -/
theorem doActs_replies {sess : Option Session} {acts : Nat → ActInput}
    {known : List (ActionMsg × Nat)} {msgs results : List ResultMsg}
    (acted : known.foldlM (fun (broker, msgs) (actionMessage, position) =>
        doAct broker env sess (acts position) actionMessage msgs) (broker, msgs) =
      some (next, results)) :
    Replies sender broker next := by
  induction known generalizing broker msgs with
  | nil =>
      simp only [List.foldlM_nil, Option.pure_def, Option.some.injEq, Prod.mk.injEq] at acted
      exact acted.1 ▸ .refl broker
  | cons head tail ih =>
      simp only [List.foldlM_cons, Option.bind_eq_bind, Option.bind_eq_some_iff,
        Prod.exists] at acted
      obtain ⟨_, _, first, rest⟩ := acted
      exact (doAct_replies first).trans (ih rest)

theorem rejectMalformed_replies {now : Int} {hdr : Header} {msg rest : Zmsg}
    (rejected : broker.rejectMalformed env now hdr sender msg = some (next, rest)) :
    Replies sender broker next := by
  simp only [rejectMalformed, Option.bind_eq_bind, Option.bind_eq_some_iff,
    Option.pure_def, Option.some.injEq, Prod.mk.injEq] at rejected
  obtain ⟨_, _, _, sent, rfl, _⟩ := rejected
  exact (getSession_replies now hdr.sessionId).trans (sendLocalToClient_replies sent)

theorem endTry_replies {now : Int} {hdr : Header} {msg rest : Zmsg} {fault : Option Fault}
    (ended : broker.endTry env now hdr sender msg fault = some (next, rest)) :
    Replies sender broker next := by
  match fault with
  | none =>
      obtain ⟨rfl, _⟩ := Prod.mk.inj (Option.some.inj ended)
      exact .refl broker
  | some .exception => exact rejectMalformed_replies ended
  | some .undefined => contradiction

theorem runKnown_replies {input : ClientInput} {extraction : Extraction} {msg : Zmsg}
    (ran : broker.runKnown env input extraction sender msg = some next) :
    Replies sender broker next := by
  rw [runKnown] at ran
  split at ran
  · simp only [Option.bind_eq_bind, Option.bind_eq_some_iff, Prod.exists] at ran
    obtain ⟨_, _, acted, sent⟩ := ran
    have asked : Replies sender broker
        (broker.getSession env input.session extraction.hdr.sessionId).1 :=
      getSession_replies _ _
    exact asked.trans ((doActs_replies acted).trans (sendLocalToClient_replies sent))
  · exact Option.some.inj ran ▸ .refl broker

/-- What `client_process` leaves behind: replies to the sender, and at most one
request, which consists of the sender, an empty frame and a body. -/
structure ClientProcessed (broker : MessageBroker) (sender : ByteString)
    (next : MessageBroker) (call : Option DispatchCall) : Prop where
  workers : next.workers = broker.workers
  requests : next.requests = broker.requests
  shape : ∀ made, call = some made →
    ∃ body, made.msg = some ⟨[cStr sender, [], cStr body]⟩
  journal : ∃ sent : List Traffic,
    next.journal = broker.journal ++ sent ++
      (call.bind DispatchCall.msg).toList.map Traffic.handed ∧
    ∀ entry ∈ sent, LocalReplyTo sender broker.workers entry

/-- None of the replies is a request. -/
theorem ClientProcessed.others {call : Option DispatchCall}
    (processed : ClientProcessed broker sender next call) : ∃ sent : List Traffic,
      next.journal = broker.journal ++ sent ++
        (call.bind DispatchCall.msg).toList.map Traffic.handed ∧
      ∀ entry ∈ sent, entry.Other := by
  obtain ⟨sent, appended, replies⟩ := processed.journal
  exact ⟨sent, appended, fun entry member => (replies entry member).other⟩

theorem clientProcess_spec {input : ClientInput} {msg : Zmsg}
    {call : Option DispatchCall}
    (processed : broker.clientProcess env input sender msg = some (next, call)) :
    ClientProcessed broker sender next call := by
  simp only [clientProcess] at processed
  split at processed
  next => contradiction
  simp only [Option.bind_eq_bind, Option.bind_eq_some_iff, Prod.exists, Option.pure_def,
    Option.some.injEq] at processed
  obtain ⟨ended, rest, isEnded, ran, isRun, passed⟩ := processed
  have replies := ((endTry_replies isEnded).trans (touchSession_replies _ _)).trans
    (runKnown_replies isRun)
  obtain ⟨sent, appended, areReplies⟩ := replies.journal
  rw [passUnknown] at passed
  split at passed
  · obtain ⟨rfl, rfl⟩ := Prod.mk.inj passed
    refine ⟨replies.workers, replies.requests, ?_, sent, ?_, areReplies⟩
    · rintro made ⟨⟩
      exact ⟨_, rfl⟩
    · simp only [record, appended]
      rfl
  · obtain ⟨rfl, rfl⟩ := Prod.mk.inj passed
    exact ⟨replies.workers, replies.requests, nofun, sent, by simpa using appended, areReplies⟩

end Client

/-! ## Dispatch -/

/-- A turn of the dispatch loop: `worker` was selected and got the request. -/
structure DispatchTurned (broker : MessageBroker) (id : ByteString)
    (front : Zmsg × ByteString) (rest : List (Zmsg × ByteString)) (worker : Worker)
    (next : MessageBroker) : Prop where
  turned : broker.dispatchTurn id front rest = some next
  selected : broker.selectWorker front.2 = some worker
  registered : broker.workers.get worker.identity = some worker
  requests : next.requests = rest
  heartbeatExpiry : next.workers.heartbeatExpiry = broker.workers.heartbeatExpiry
  get : ∀ identity, next.workers.get identity =
    if identity = worker.identity then
      some { worker with idle := false, lastWorkedSession := id }
    else broker.workers.get identity
  journal : next.journal = broker.journal ++
    [.sent .internal (workerMessage worker mdpwRequest [] (some front.1)) broker.workers]
  framed : (workerMessage worker mdpwRequest [] (some front.1)).send.isSome = true

/-- A selected worker is registered. -/
theorem selectWorker_registered {sessId : ByteString} {worker : Worker}
    (selected : broker.selectWorker sessId = some worker) :
    broker.workers.get worker.identity = some worker := by
  rw [selectWorker] at selected
  split at selected
  next last found =>
    split at selected
    · exact (getNextWorker_spec selected).1
    · obtain rfl := Option.some.inj selected
      exact (getByLastWorkedSession_spec found).1
  next => exact (getNextWorker_spec selected).1

theorem dispatchTurn_spec {id : ByteString} {front : Zmsg × ByteString}
    {rest : List (Zmsg × ByteString)}
    (turned : broker.dispatchTurn id front rest = some next) :
    ∃ worker, DispatchTurned broker id front rest worker next := by
  have isTurned := turned
  simp only [dispatchTurn, Option.bind_eq_bind, Option.bind_eq_some_iff, Prod.exists,
    Option.pure_def, Option.some.injEq] at turned
  obtain ⟨worker, selected, told, sent, workers, _, updated, rfl⟩ := turned
  obtain ⟨rfl, framed⟩ := sendOn_spec sent
  have registered := selectWorker_registered selected
  refine ⟨worker, isTurned, selected, registered, rfl, ?_, fun identity => ?_, rfl,
    framed⟩
  · exact (heartbeatExpiry_modifyById updated).trans (heartbeatExpiry_modifyIdle _ _)
  · rw [get_updateLastWorked updated, get_setBusy]
    split
    next equal =>
      subst equal
      simp only [record, registered, Option.map_some]
    next => rfl

/-- What every turn of the dispatch loop preserves holds behind it. The loop works
off the whole queue or, without an idle worker in front of it, nothing. -/
theorem dispatchLoop_invariant {range : WorkerIterator × WorkerIterator}
    {id : ByteString} (inv : List (Zmsg × ByteString) → MessageBroker → Prop)
    (turn : ∀ front rest broker next worker, inv (front :: rest) broker →
      DispatchTurned broker id front rest worker next → inv rest next)
    {pending : List (Zmsg × ByteString)}
    (holds : WorkerIterator.same range.1 range.2 = false → inv pending broker)
    (looped : dispatchLoop range id pending broker = some next) :
    if WorkerIterator.same range.1 range.2 then next = broker else inv [] next := by
  induction pending generalizing broker with
  | nil =>
      rw [dispatchLoop_nil] at looped
      obtain rfl := Option.some.inj looped
      cases reached : WorkerIterator.same range.1 range.2 with
      | true => rfl
      | false => exact holds reached
  | cons front rest ih =>
      rw [dispatchLoop_cons] at looped
      cases reached : WorkerIterator.same range.1 range.2 with
      | true =>
          rw [reached] at looped
          exact (Option.some.inj looped).symm
      | false =>
          simp only [reached, Bool.not_false, if_true, Option.bind_eq_bind,
            Option.bind_eq_some_iff] at looped
          obtain ⟨turned, isTurned, looped⟩ := looped
          obtain ⟨worker, effect⟩ := dispatchTurn_spec isTurned
          simpa [reached] using ih (fun _ => turn _ _ _ _ _ (holds reached) effect) looped

end MessageBroker

end Cdcm.Frontend
