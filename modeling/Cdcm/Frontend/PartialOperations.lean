import Cdcm.Frontend.DispatchTargets

/-!
# The partial operations of the worker store

The broker dereferences the worker that comes next, compares iterators into the
store and updates workers through the position that a search returns, and checks
none of the three.  Here the handlers are read with other operations in their place,
which agree with the real ones only where these are defined: the broker does not
notice.
-/

namespace Cdcm.Frontend

open OrderedIndex MultiIndex Json Protocol SessionsCache Zmq WorkerContainer Machine

/-- Some operations in the place of the partial ones. -/
structure PartialOps where
  nextWorker : WorkerContainer → Option Worker
  updateLastWorked : WorkerContainer → ByteString → ByteString →
    Option (WorkerContainer × Bool)
  updateExpiration : WorkerContainer → Int → ByteString → Option (WorkerContainer × Bool)
  same : WorkerContainer → WorkerIterator × WorkerIterator → Bool

/-- An iterator designates a node of the store, or the end. -/
def WorkerIterator.Valid (workers : WorkerContainer) (iterator : WorkerIterator) : Prop :=
  ∀ node, iterator = some node → ∃ current ∈ workers.cont, current.addr = node.addr

/-- The operations do what the real ones do where these are defined: there is a next
worker, the identity is registered, the iterators are valid. -/
structure PartialOps.AgreesInside (ops : PartialOps) : Prop where
  nextWorker : ∀ workers : WorkerContainer, workers.getNextWorker.isSome = true →
    ops.nextWorker workers = workers.getNextWorker
  updateLastWorked : ∀ (workers : WorkerContainer) (identity sessId : ByteString),
    (workers.get identity).isSome = true →
      ops.updateLastWorked workers identity sessId = workers.updateLastWorked identity sessId
  updateExpiration : ∀ (workers : WorkerContainer) (now : Int) (identity : ByteString),
    (workers.get identity).isSome = true →
      ops.updateExpiration workers now identity = workers.updateExpiration now identity
  same : ∀ (workers : WorkerContainer) (range : WorkerIterator × WorkerIterator),
    range.1.Valid workers → range.2.Valid workers →
      ops.same workers range = WorkerIterator.same range.1 range.2

namespace MessageBroker

variable (env : Environment) (ops : PartialOps) (broker : MessageBroker)

/-- `selectWorker` with other operations. -/
def selectWorkerWith (sessId : ByteString) : Option Worker :=
  match broker.workers.getByLastWorkedSession sessId with
  | some worker => if !worker.idle then ops.nextWorker broker.workers else some worker
  | none => ops.nextWorker broker.workers

/-- `dispatchTurn` with other operations. -/
def dispatchTurnWith (id : ByteString) (front : Zmsg × ByteString)
    (rest : List (Zmsg × ByteString)) : Option MessageBroker := do
  let worker ← broker.selectWorkerWith ops front.2
  let broker := { broker with requests := rest }
  let broker ← broker.workerSend worker mdpwRequest [] (some front.1)
  let workers := (broker.workers.setBusy worker.identity).1
  let (workers, _) ← ops.updateLastWorked workers worker.identity id
  return { broker with workers := workers }

/-- `dispatchLoop` with other operations. -/
def dispatchLoopWith (range : WorkerIterator × WorkerIterator) (id : ByteString)
    (pending : List (Zmsg × ByteString)) (broker : MessageBroker) : Option MessageBroker :=
  if !ops.same broker.workers range then
    match pending with
    | [] => some broker
    | front :: rest => do
        let broker ← broker.dispatchTurnWith ops id front rest
        dispatchLoopWith range id rest broker
  else some broker

/-- `serviceDispatch` with other operations. -/
def serviceDispatchWith (now : Int) (call : DispatchCall) : Option MessageBroker := do
  let broker := broker.enqueue call
  let broker ← broker.purgeWorkers now
  dispatchLoopWith ops broker.workers.idleWorkers call.id broker.requests broker

/-- `workerWaiting` with other operations. -/
def workerWaitingWith (clock : WorkerClock) (worker : Worker) : Handled := do
  let workers := (broker.workers.setIdle worker.identity).1
  let (workers, _) ← ops.updateExpiration workers clock.update worker.identity
  return ({ broker with workers := workers }, some ⟨none, []⟩)

/-- `forwardReply` with other operations. -/
def forwardReplyWith (clock : WorkerClock) (worker : Worker) (msg : Zmsg) : Handled := do
  let (client, msg) := msg.unwrap
  if client = [] then return (broker, none)
  let broker ← broker.sendOn .external (clientReply client msg)
  let broker := { broker with replied := broker.replied + 1 }
  broker.workerWaitingWith ops clock worker

/-- `processCommand` with other operations. -/
def processCommandWith (clock : WorkerClock) (sender : ByteString) (workerReady : Bool)
    (worker : Worker) (command : ByteString) (msg : Zmsg) : Handled := do
  if command = mdpwReady then
    if workerReady then return (← broker.workerDelete worker true, none)
    else broker.workerWaitingWith ops clock worker
  else if command = mdpwReply then
    if workerReady then broker.forwardReplyWith ops clock worker msg
    else return (← broker.workerDelete worker true, none)
  else if command = mdpwHeartbeat then
    if workerReady then
      let (workers, _) ← ops.updateExpiration broker.workers clock.update sender
      return ({ broker with workers := workers }, none)
    else return (← broker.workerDelete worker true, none)
  else if command = mdpwDisconnect then
    return (← broker.workerDelete worker false, none)
  else return (broker, none)

/-- `workerProcess` with other operations. -/
def workerProcessWith (clock : WorkerClock) (sender : ByteString) (msg : Zmsg) :
    Handled := do
  if msg.parts < 1 then none
  let (part, msg) := msg.popFront
  let command := cStr part
  let broker := broker.record (.command sender command)
  let workerReady := broker.workers.exists sender
  let (broker, worker) ← broker.workerRequire clock.insert sender
  broker.processCommandWith ops clock sender workerReady worker command msg

/-- `handle` with other operations. -/
def handleWith (broker : MessageBroker) : BrokerEvent → Handled
  | .worker frames clock =>
      broker.handleMessage frames mdpwWorker (broker.workerProcessWith ops clock)
  | event => broker.handle env event

/-- `step` with other operations. -/
def stepWith (broker : MessageBroker) (event : BrokerEvent) : Option MessageBroker := do
  let (broker, call) ← broker.handleWith env ops event
  match call with
  | some call => broker.serviceDispatchWith ops (purgeTime event) call
  | none => some broker

variable {env ops broker}

theorem selectWorkerWith_eq (agrees : ops.AgreesInside) {identity : ByteString}
    {worker : Worker} (registered : broker.workers.get identity = some worker)
    (sessId : ByteString) : broker.selectWorkerWith ops sessId = broker.selectWorker sessId := by
  have nextEqual := agrees.nextWorker broker.workers (getNextWorker_isSome registered)
  unfold selectWorkerWith selectWorker
  cases broker.workers.getByLastWorkedSession sessId with
  | none => exact nextEqual
  | some found =>
      dsimp only
      split
      · exact nextEqual
      · rfl

theorem dispatchTurnWith_eq (agrees : ops.AgreesInside) {identity : ByteString}
    {worker : Worker} (registered : broker.workers.get identity = some worker)
    (id : ByteString) (front : Zmsg × ByteString) (rest : List (Zmsg × ByteString)) :
    broker.dispatchTurnWith ops id front rest = broker.dispatchTurn id front rest := by
  rw [dispatchTurnWith, dispatchTurn, selectWorkerWith_eq agrees registered]
  cases selected : broker.selectWorker front.2 with
  | none => rfl
  | some chosen =>
      simp only [Option.bind_eq_bind, Option.bind_some]
      cases sent : workerSend { broker with requests := rest } chosen mdpwRequest []
          (some front.1) with
      | none => rfl
      | some told =>
          have sameWorkers : told.workers = broker.workers := by
            rw [(sendOn_spec sent).1]
            rfl
          have stays :
              ((told.workers.setBusy chosen.identity).1.get chosen.identity).isSome = true := by
            rw [get_setBusy, if_pos rfl, sameWorkers, selectWorker_registered selected]
            rfl
          simp only [Option.bind_some, agrees.updateLastWorked _ _ id stays]

/-- An iterator stays valid while its node is modified. -/
theorem valid_modify {workers : WorkerContainer} {identity : ByteString} {node : Node Worker}
    (found : workers.cont.find Tag.id identity = some node) {change : Worker → Worker}
    (keepsId : ∀ worker, (change worker).identity = worker.identity) {other : Node Worker}
    (member : other ∈ workers.cont) :
    ∃ current ∈ (workers.cont.modify node.addr change).1, current.addr = other.addr := by
  have stored := ((Container.find_eq_some unique_id).mp found).1
  have located := Container.at?_eq_some.mpr ⟨stored, rfl⟩
  have kept : ∀ current, current ∈ (workers.cont.modify node.addr change).1 ↔
      current = ⟨node.addr, change node.val⟩ ∨
        current ∈ workers.cont ∧ current.addr ≠ node.addr :=
    fun _ => Container.mem_modify located (no_clash found keepsId)
  by_cases equal : other.addr = node.addr
  · exact ⟨⟨node.addr, change node.val⟩, (kept _).mpr (.inl rfl), equal.symm⟩
  · exact ⟨other, (kept other).mpr (.inr ⟨member, equal⟩), rfl⟩

theorem valid_modifyIdle {workers : WorkerContainer} {iterator : WorkerIterator}
    (valid : iterator.Valid workers) (identity : ByteString) (modifyTo : Bool) :
    iterator.Valid (workers.modifyIdle identity modifyTo).1 := by
  intro node designated
  obtain ⟨current, member, equal⟩ := valid node designated
  rw [modifyIdle]
  cases found : workers.cont.find Tag.idleId (toLex (identity, !modifyTo)) with
  | none => exact ⟨current, member, equal⟩
  | some changed =>
      have keepsId : ∀ worker : Worker,
          { worker with idle := modifyTo }.identity = worker.identity := fun _ => rfl
      obtain ⟨kept, stays, same⟩ :=
        valid_modify (find_id_of_find_idleId found) keepsId member
      exact ⟨kept, stays, same.trans equal⟩

theorem valid_modifyById {workers next : WorkerContainer} {iterator : WorkerIterator}
    {modified : Bool} (valid : iterator.Valid workers) {identity : ByteString}
    {change : Worker → Worker}
    (keepsId : ∀ worker, (change worker).identity = worker.identity)
    (done : workers.modifyById identity change = some (next, modified)) :
    iterator.Valid next := by
  intro node designated
  obtain ⟨current, member, equal⟩ := valid node designated
  rw [modifyById] at done
  cases found : workers.cont.find Tag.id identity with
  | none => simp [found] at done
  | some changed =>
      simp only [found, Option.some.injEq, Prod.mk.injEq] at done
      obtain ⟨kept, stays, same⟩ := valid_modify found keepsId member
      exact ⟨kept, done.1 ▸ stays, same.trans equal⟩

theorem valid_updateLastWorked {workers next : WorkerContainer} {iterator : WorkerIterator}
    {identity sessId : ByteString} {modified : Bool} (valid : iterator.Valid workers)
    (done : workers.updateLastWorked identity sessId = some (next, modified)) :
    iterator.Valid next := by
  refine valid_modifyById valid (fun worker => ?_) done
  rfl

/-- A turn of the loop erases nothing. -/
theorem valid_dispatchTurn {iterator : WorkerIterator} (valid : iterator.Valid broker.workers)
    {id : ByteString} {front : Zmsg × ByteString} {rest : List (Zmsg × ByteString)}
    (turned : broker.dispatchTurn id front rest = some next) :
    iterator.Valid next.workers := by
  simp only [dispatchTurn, Option.bind_eq_bind, Option.bind_eq_some_iff, Prod.exists,
    Option.pure_def, Option.some.injEq] at turned
  obtain ⟨worker, -, told, sent, workers, _, updated, rfl⟩ := turned
  obtain ⟨rfl, -⟩ := sendOn_spec sent
  have busy := valid_modifyIdle valid worker.identity false
  exact valid_updateLastWorked busy updated

theorem dispatchLoopWith_eq (agrees : ops.AgreesInside)
    {range : WorkerIterator × WorkerIterator} {id : ByteString}
    {pending : List (Zmsg × ByteString)} (first : range.1.Valid broker.workers)
    (last : range.2.Valid broker.workers)
    (anyRegistered : WorkerIterator.same range.1 range.2 = false →
      ∃ identity worker, broker.workers.get identity = some worker) :
    dispatchLoopWith ops range id pending broker = dispatchLoop range id pending broker := by
  induction pending generalizing broker with
  | nil => rw [dispatchLoopWith, dispatchLoop, agrees.same _ _ first last]
  | cons front rest induction =>
      rw [dispatchLoopWith, dispatchLoop, agrees.same _ _ first last]
      cases entered : WorkerIterator.same range.1 range.2 with
      | true => rfl
      | false =>
          obtain ⟨identity, worker, registered⟩ := anyRegistered entered
          rw [dispatchTurnWith_eq agrees registered]
          simp only [Bool.not_false, if_true]
          cases turned : broker.dispatchTurn id front rest with
          | none => rfl
          | some turnedBroker =>
              obtain ⟨selected, effect⟩ := dispatchTurn_spec turned
              simp only [Option.bind_eq_bind, Option.bind_some]
              apply induction (valid_dispatchTurn first turned) (valid_dispatchTurn last turned)
              intro _
              exact ⟨selected.identity, _, by rw [effect.get, if_pos rfl]⟩

/-- The iterators of a search designate nodes of the store. -/
theorem valid_idleWorkers (workers : WorkerContainer) :
    workers.idleWorkers.1.Valid workers ∧ workers.idleWorkers.2.Valid workers := by
  constructor
  · intro node designated
    exact ⟨node, mem_index.mp (List.mem_of_find?_eq_some designated), rfl⟩
  · intro node designated
    exact ⟨node, mem_index.mp (List.mem_of_find?_eq_some designated), rfl⟩

theorem serviceDispatchWith_eq (agrees : ops.AgreesInside) (now : Int) (call : DispatchCall) :
    broker.serviceDispatchWith ops now call = broker.serviceDispatch now call := by
  rw [serviceDispatchWith, serviceDispatch]
  cases purge : (broker.enqueue call).purgeWorkers now with
  | none => rfl
  | some purged =>
      simp only [Option.bind_eq_bind, Option.bind_some]
      have valid := valid_idleWorkers purged.workers
      apply dispatchLoopWith_eq agrees valid.1 valid.2
      intro entered
      have notAllBusy : ¬ ∀ identity worker, purged.workers.get identity = some worker →
          worker.idle = false := by
        intro allBusy
        exact Bool.false_ne_true (entered.symm.trans (idleWorkers_same.mpr allBusy))
      push Not at notAllBusy
      obtain ⟨identity, worker, registered, -⟩ := notAllBusy
      exact ⟨identity, worker, registered⟩

theorem workerWaitingWith_eq (agrees : ops.AgreesInside) {clock : WorkerClock} {worker : Worker}
    (registered : (broker.workers.get worker.identity).isSome = true) :
    broker.workerWaitingWith ops clock worker = broker.workerWaiting clock worker := by
  have stays : ((broker.workers.setIdle worker.identity).1.get worker.identity).isSome = true := by
    rw [get_setIdle, if_pos rfl, Option.isSome_map]
    exact registered
  rw [workerWaitingWith, workerWaiting, agrees.updateExpiration _ _ _ stays]

theorem forwardReplyWith_eq (agrees : ops.AgreesInside) {clock : WorkerClock} {worker : Worker}
    (registered : (broker.workers.get worker.identity).isSome = true) (msg : Zmsg) :
    broker.forwardReplyWith ops clock worker msg = broker.forwardReply clock worker msg := by
  rw [forwardReplyWith, forwardReply]
  cases unwrapped : msg.unwrap with
  | mk client rest =>
      by_cases empty : client = []
      · simp [empty]
      · simp only [empty, if_false]
        cases sent : broker.sendOn .external (clientReply client rest) with
        | none => rfl
        | some told =>
            have sameWorkers : told.workers = broker.workers := by
              rw [(sendOn_spec sent).1]
              rfl
            simp only [Option.bind_eq_bind, Option.bind_some]
            apply workerWaitingWith_eq agrees
            rw [sameWorkers]
            exact registered

theorem processCommandWith_eq (agrees : ops.AgreesInside) {clock : WorkerClock}
    {sender : ByteString} {workerReady : Bool} {worker : Worker}
    (registered : (broker.workers.get worker.identity).isSome = true)
    (ready : workerReady = true → (broker.workers.get sender).isSome = true)
    (command : ByteString) (msg : Zmsg) :
    broker.processCommandWith ops clock sender workerReady worker command msg =
      broker.processCommand clock sender workerReady worker command msg := by
  rw [processCommandWith, processCommand, workerWaitingWith_eq agrees registered,
    forwardReplyWith_eq agrees registered]
  cases flag : workerReady with
  | true => rw [agrees.updateExpiration _ _ _ (ready flag)]
  | false => rfl

theorem workerProcessWith_eq (agrees : ops.AgreesInside) (clock : WorkerClock)
    (sender : ByteString) (msg : Zmsg) :
    broker.workerProcessWith ops clock sender msg = broker.workerProcess clock sender msg := by
  rw [workerProcessWith, workerProcess]
  by_cases short : msg.parts < 1
  · simp [short]
  · simp only [short, if_false]
    cases required : workerRequire (broker.record (.command sender (cStr msg.popFront.1)))
        clock.insert sender with
    | none => rfl
    | some pair =>
        obtain ⟨requiring, worker⟩ := pair
        have isSender : worker.identity = sender ∧
            (requiring.workers.get worker.identity).isSome = true := by
          obtain ⟨-, same, workers, rfl, -, get⟩ := workerRequire_spec required
          rw [same, get, if_pos rfl]
          exact ⟨rfl, rfl⟩
        simp only [Option.bind_eq_bind, Option.bind_some]
        apply processCommandWith_eq agrees isSender.2
        intro ready
        rw [← isSender.1]
        exact isSender.2

/-- The partial operations are used inside their domains only: with other operations
that agree with the real ones there, the broker handles every event in the same way,
the turns of its dispatch loop included. -/
theorem step_inside_domains (env : Environment) {ops : PartialOps} (agrees : ops.AgreesInside)
    (broker : MessageBroker) (event : BrokerEvent) :
    broker.stepWith env ops event = broker.step env event := by
  have handled : broker.handleWith env ops event = broker.handle env event := by
    cases event with
    | worker frames clock =>
        have processed : broker.workerProcessWith ops clock = broker.workerProcess clock := by
          funext sender msg
          exact workerProcessWith_eq agrees clock sender msg
        rw [handleWith, handle, processed]
    | client frames input => rfl
    | timer now => rfl
    | segment sessions => rfl
  rw [stepWith, step, handled]
  cases broker.handle env event with
  | none => rfl
  | some pair =>
      obtain ⟨handledBroker, call⟩ := pair
      cases call with
      | none => rfl
      | some made => exact serviceDispatchWith_eq agrees (purgeTime event) made

/-- Operations that do nothing where the real ones are undefined. -/
def forgivingOps : PartialOps where
  nextWorker workers := some (workers.getNextWorker.getD (Worker.new []))
  updateLastWorked workers identity sessId :=
    some ((workers.updateLastWorked identity sessId).getD (workers, false))
  updateExpiration workers now identity :=
    some ((workers.updateExpiration now identity).getD (workers, false))
  same _ range := WorkerIterator.same range.1 range.2

theorem forgivingOps_agrees : forgivingOps.AgreesInside where
  nextWorker workers next := by
    obtain ⟨worker, found⟩ := Option.isSome_iff_exists.mp next
    simp [forgivingOps, found]
  updateLastWorked workers identity sessId registered := by
    obtain ⟨pair, done⟩ := Option.isSome_iff_exists.mp
      ((@modifyById_isSome workers identity fun worker =>
        { worker with lastWorkedSession := sessId }).trans registered)
    have updated : workers.updateLastWorked identity sessId = some pair := done
    simp [forgivingOps, updated]
  updateExpiration workers now identity registered := by
    obtain ⟨pair, done⟩ := Option.isSome_iff_exists.mp
      ((@modifyById_isSome workers identity fun worker =>
        { worker with expiry := workers.expiryFrom now }).trans registered)
    have updated : workers.updateExpiration now identity = some pair := done
    simp [forgivingOps, updated]
  same _ _ _ _ := rfl

/-- A request waits for the first worker, and is dispatched to it when it registers, also with
the forgiving operations. -/
theorem step_inside_domains_ready :
    ∃ queued next : MessageBroker,
      sampleBroker.step (sampleEnv [sampleBody [pingAction "1"]])
          (clientSends "c1" (sampleBody [pingAction "1"]) 0) = some queued ∧
        queued.requests ≠ [] ∧
        queued.stepWith (sampleEnv []) forgivingOps (workerSends "w1" mdpwReady [] 1) =
          some next ∧
        queued.step (sampleEnv []) (workerSends "w1" mdpwReady [] 1) = some next ∧
        next.requests = [] := by
  have observed : (sampleBroker.step (sampleEnv [sampleBody [pingAction "1"]])
      (clientSends "c1" (sampleBody [pingAction "1"]) 0)).any (fun queued =>
        !queued.requests.isEmpty &&
          (queued.step (sampleEnv []) (workerSends "w1" mdpwReady [] 1)).any fun next =>
            next.requests.isEmpty) = true := by
    decide +kernel
  rw [Option.any_eq_true] at observed
  obtain ⟨queued, isQueued, both⟩ := observed
  rw [Bool.and_eq_true, Option.any_eq_true] at both
  obtain ⟨waits, next, stepped, dispatched⟩ := both
  have same := step_inside_domains (sampleEnv []) forgivingOps_agrees queued
    (workerSends "w1" mdpwReady [] 1)
  refine ⟨queued, next, isQueued, ?_, same.trans stepped, stepped,
    List.isEmpty_iff.mp dispatched⟩
  intro none
  rw [none] at waits
  contradiction

end MessageBroker

end Cdcm.Frontend
