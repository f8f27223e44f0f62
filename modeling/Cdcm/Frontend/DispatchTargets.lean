import Cdcm.Frontend.BrokerRun

/-!
# The targets of a dispatch

Which worker a turn of the dispatch loop takes: the worker of the session only when
it comes first in the session index, or first by expiry; and never a worker whose
expiry had passed at the purge, since a live worker survives it and nothing is
removed between the turns.
-/

namespace Cdcm.Frontend

open OrderedIndex MultiIndex Json Protocol SessionsCache Zmq WorkerContainer Machine

namespace WorkerContainer

/-- Some registered and idle worker last worked on a session. -/
def IdleOfSession (workers : WorkerContainer) (sessId : ByteString) : Prop :=
  ∃ identity worker, workers.get identity = some worker ∧ worker.idle = true ∧
    worker.lastWorkedSession = sessId

/-- A worker comes first in the session index among those of its session. -/
def FirstOfSession (workers : WorkerContainer) (worker : Worker) : Prop :=
  ∃ front back, (workers.cont.index .session).map Node.val = front ++ worker :: back ∧
    ∀ other ∈ front, other.lastWorkedSession ≠ worker.lastWorkedSession

/-- A worker comes first in the expiry index. -/
def FirstByExpiry (workers : WorkerContainer) (worker : Worker) : Prop :=
  ∃ back, (workers.cont.index .expiration).map Node.val = worker :: back

variable {workers : WorkerContainer}

theorem getNextWorker_eq_some {worker : Worker} :
    workers.getNextWorker = some worker ↔ workers.FirstByExpiry worker := by
  rw [getNextWorker, ← List.head?_map, List.head?_eq_some_iff]
  rfl

theorem getByLastWorkedSession_eq_some {sessId : ByteString} {worker : Worker} :
    workers.getByLastWorkedSession sessId = some worker ↔
      workers.FirstOfSession worker ∧ worker.lastWorkedSession = sessId := by
  have searched : workers.getByLastWorkedSession sessId =
      ((workers.cont.index .session).map Node.val).find? fun other =>
        other.lastWorkedSession = sessId := by
    rw [getByLastWorkedSession, Container.lookup, Container.find, List.find?_map]
    congr 2
    funext node
    exact decide_eq_decide.mpr Iff.rfl
  rw [searched, List.find?_eq_some_iff_append, decide_eq_true_iff]
  constructor
  · rintro ⟨same, front, back, split, others⟩
    refine ⟨⟨front, back, split, fun other member => ?_⟩, same⟩
    simpa [same] using others other member
  · rintro ⟨⟨front, back, split, others⟩, same⟩
    refine ⟨same, front, back, split, fun other member => ?_⟩
    simpa [same] using others other member

/-- With a worker of a session, one of them comes first in the session index. -/
theorem getByLastWorkedSession_isSome {identity : ByteString} {worker : Worker}
    (registered : workers.get identity = some worker) :
    (workers.getByLastWorkedSession worker.lastWorkedSession).isSome = true := by
  obtain ⟨⟨node, member, rfl⟩, -⟩ := get_eq_some.mp registered
  rw [getByLastWorkedSession, Container.lookup, Option.isSome_map]
  cases found : workers.cont.find Tag.session node.val.lastWorkedSession with
  | none => exact absurd rfl (Container.find_eq_none.mp found node member)
  | some first => rfl

end WorkerContainer

namespace MessageBroker

variable {env : Environment} {broker next : MessageBroker}

/-- The worker that is chosen for a session is an idle one of that session. -/
def ChoosesAffine (broker : MessageBroker) (sessId : ByteString) : Prop :=
  broker.workers.IdleOfSession sessId →
    ∀ worker, broker.selectWorker sessId = some worker →
      worker.idle = true ∧ worker.lastWorkedSession = sessId

/-- Session affinity: while some idle worker is of the session, an idle worker of the
session is chosen exactly if the first one in the session index is idle, or the first
one by expiry is idle and of the session. -/
theorem choosesAffine_iff (broker : MessageBroker) (sessId : ByteString) :
    broker.ChoosesAffine sessId ↔
      (broker.workers.IdleOfSession sessId →
        (∃ worker, broker.workers.FirstOfSession worker ∧
          worker.lastWorkedSession = sessId ∧ worker.idle = true) ∨
        ∃ worker, broker.workers.FirstByExpiry worker ∧
          worker.lastWorkedSession = sessId ∧ worker.idle = true) := by
  refine forall_congr' fun idleOne => ?_
  obtain ⟨identity, idle, registered, -, same⟩ := idleOne
  obtain ⟨first, isFirst⟩ := Option.isSome_iff_exists.mp
    (same ▸ getByLastWorkedSession_isSome registered)
  obtain ⟨latest, isLatest⟩ := Option.isSome_iff_exists.mp (getNextWorker_isSome registered)
  have firstSession := (getByLastWorkedSession_eq_some.mp isFirst).2
  cases flag : first.idle with
  | true =>
      have chosen : broker.selectWorker sessId = some first := by
        simp [selectWorker, isFirst, flag]
      constructor
      · intro _
        exact .inl ⟨first, (getByLastWorkedSession_eq_some.mp isFirst).1, firstSession, flag⟩
      · intro _ worker selected
        obtain rfl := Option.some.inj (chosen.symm.trans selected)
        exact ⟨flag, firstSession⟩
  | false =>
      have chosen : broker.selectWorker sessId = some latest := by
        simp [selectWorker, isFirst, flag, isLatest]
      constructor
      · intro affine
        have chosenIdle := affine latest chosen
        exact .inr ⟨latest, getNextWorker_eq_some.mp isLatest, chosenIdle.2, chosenIdle.1⟩
      · intro condition worker selected
        obtain rfl := Option.some.inj (chosen.symm.trans selected)
        rcases condition with ⟨other, isFirst', same', flag'⟩ | ⟨other, isLatest', same', flag'⟩
        · have found := getByLastWorkedSession_eq_some.mpr ⟨isFirst', same'⟩
          obtain rfl := Option.some.inj (isFirst.symm.trans found)
          rw [flag] at flag'
          cases flag'
        · have found := getNextWorker_eq_some.mpr isLatest'
          obtain rfl := Option.some.inj (isLatest.symm.trans found)
          exact ⟨flag', same'⟩

/-- Two workers without a session: one of them is busy and sends a heartbeat, and the
next request goes to it. -/
theorem heartbeat_breaks_affinity :
    ∃ broker, Run (step (sampleEnv [sampleBody [pingAction "1"]])) Unguarded sampleBroker
        [workerSends "w1" mdpwReady [] 0, workerSends "w2" mdpwReady [] 1,
          clientSends "c1" (sampleBody [pingAction "1"]) 2,
          workerSends "w1" mdpwHeartbeat [] 3] broker ∧
      ¬ broker.ChoosesAffine (text "N/A") := by
  refine (Run.exists_of_exec (fun broker : MessageBroker =>
      (broker.workers.get (text "w2")).any (fun worker =>
        worker.idle && decide (worker.lastWorkedSession = text "N/A")) &&
      (broker.selectWorker (text "N/A")).any fun worker => !worker.idle)
    (by decide +kernel)).imp fun broker ⟨run, observed⟩ => ⟨run, ?_⟩
  rw [Bool.and_eq_true, Option.any_eq_true, Option.any_eq_true] at observed
  obtain ⟨⟨idle, registered, isIdle⟩, chosen, selected, isBusy⟩ := observed
  rw [Bool.and_eq_true, decide_eq_true_iff] at isIdle
  intro affine
  have flag := (affine ⟨_, idle, registered, isIdle.1, isIdle.2⟩ chosen selected).1
  rw [flag] at isBusy
  cases isBusy

/-! ## The turns of the loop -/

/-- The heads of the dispatch loop that are reached, also when a later turn aborts. -/
inductive LoopHead (range : WorkerIterator × WorkerIterator) (id : ByteString)
    (pending : List (Zmsg × ByteString)) (broker : MessageBroker) :
    List (Zmsg × ByteString) → MessageBroker → Prop where
  | enter : LoopHead range id pending broker pending broker
  | turn {front : Zmsg × ByteString} {rest : List (Zmsg × ByteString)}
      {state next : MessageBroker} :
      LoopHead range id pending broker (front :: rest) state →
        WorkerIterator.same range.1 range.2 = false →
        state.dispatchTurn id front rest = some next →
        LoopHead range id pending broker rest next

/-- The heads of the loop of one call of `service_dispatch`. -/
def DispatchHead (broker : MessageBroker) (now : Int) (call : DispatchCall) :
    List (Zmsg × ByteString) → MessageBroker → Prop :=
  LoopHead (broker.workers.purged now).idleWorkers call.id (broker.enqueue call).requests
    (broker.purgedFor now call)

/-- Some worker is live, and so are all that are idle. -/
def HasLive (now : Int) (broker : MessageBroker) : Prop :=
  (∃ identity worker, broker.workers.get identity = some worker ∧ now < worker.expiry) ∧
    ∀ identity worker, broker.workers.get identity = some worker → worker.idle = true →
      now < worker.expiry

/-- A turn removes no worker and changes no expiry. -/
theorem HasLive.turn {now : Int} {id : ByteString} {front : Zmsg × ByteString}
    {rest : List (Zmsg × ByteString)} (live : broker.HasLive now)
    (turned : broker.dispatchTurn id front rest = some next) : next.HasLive now := by
  obtain ⟨worker, effect⟩ := dispatchTurn_spec turned
  obtain ⟨⟨identity, alive, registered, late⟩, idle⟩ := live
  constructor
  · by_cases equal : identity = worker.identity
    · subst equal
      obtain rfl := Option.some.inj (registered.symm.trans effect.registered)
      exact ⟨alive.identity, { alive with idle := false, lastWorkedSession := id },
        by rw [effect.get, if_pos rfl], late⟩
    · exact ⟨identity, alive, by rw [effect.get, if_neg equal, registered], late⟩
  · intro name other found flag
    rw [effect.get] at found
    split at found
    next =>
      obtain rfl := Option.some.inj found
      cases flag
    next => exact idle name other found flag

/-- Every worker is live that is idle behind a purge. -/
theorem hasLive_purgedFor {now : Int} {call : DispatchCall}
    (entered : WorkerIterator.same (broker.workers.purged now).idleWorkers.1
      (broker.workers.purged now).idleWorkers.2 = false) :
    (broker.purgedFor now call).HasLive now := by
  have idle : ∀ identity worker, (broker.workers.purged now).get identity = some worker →
      worker.idle = true → now < worker.expiry := by
    intro identity worker found flag
    rw [get_purged] at found
    have kept := (Option.filter_eq_some_iff.mp found).2
    simpa [expired, flag] using kept
  have notAllBusy : ¬ ∀ identity worker,
      (broker.workers.purged now).get identity = some worker → worker.idle = false := by
    intro allBusy
    exact Bool.false_ne_true (entered.symm.trans (idleWorkers_same.mpr allBusy))
  push Not at notAllBusy
  obtain ⟨identity, worker, registered, flag⟩ := notAllBusy
  have isIdle : worker.idle = true := by simpa using flag
  exact ⟨⟨identity, worker, registered, idle identity worker registered isIdle⟩, idle⟩

/-- The worker that a turn selects is live. -/
theorem HasLive.selected {now : Int} {sessId : ByteString} {worker : Worker}
    (live : broker.HasLive now) (selected : broker.selectWorker sessId = some worker) :
    now < worker.expiry := by
  have latest : ∀ {next}, broker.workers.getNextWorker = some next → now < next.expiry := by
    intro next found
    obtain ⟨⟨identity, alive, registered, late⟩, -⟩ := live
    exact late.trans_le ((getNextWorker_spec found).2 identity alive registered)
  have registered := selectWorker_registered selected
  rw [selectWorker] at selected
  split at selected
  next first found =>
    split at selected
    next => exact latest selected
    next flag =>
      obtain rfl := Option.some.inj selected
      exact live.2 _ _ registered (by simpa using flag)
  next => exact latest selected

/-- So it is at every head of the loop. -/
theorem hasLive_head {now : Int} {call : DispatchCall} {pending : List (Zmsg × ByteString)}
    {state : MessageBroker} (head : broker.DispatchHead now call pending state)
    (entered : WorkerIterator.same (broker.workers.purged now).idleWorkers.1
      (broker.workers.purged now).idleWorkers.2 = false) : state.HasLive now := by
  induction head with
  | enter => exact hasLive_purgedFor entered
  | turn _ _ turned induction => exact induction.turn turned

/-- No dispatch to a dead worker: every `REQUEST` that a call of `service_dispatch`
sends, also one that a later turn aborts, goes to a registered worker whose expiry
lies behind the time of the purge. -/
theorem requests_to_live_workers (broker : MessageBroker) (now : Int) (call : DispatchCall)
    {front : Zmsg × ByteString} {rest : List (Zmsg × ByteString)}
    {state next : MessageBroker} (head : broker.DispatchHead now call (front :: rest) state)
    (entered : WorkerIterator.same (broker.workers.purged now).idleWorkers.1
      (broker.workers.purged now).idleWorkers.2 = false)
    (turned : state.dispatchTurn call.id front rest = some next) :
    ∃ worker, next.journal = state.journal ++
        [.sent .internal (workerMessage worker mdpwRequest [] (some front.1)) state.workers] ∧
      state.workers.get worker.identity = some worker ∧ now < worker.expiry := by
  have live := hasLive_head head entered
  obtain ⟨worker, effect⟩ := dispatchTurn_spec turned
  exact ⟨worker, effect.journal, effect.registered, live.selected effect.selected⟩

/-- A broker with a busy worker and an idle one that has come later. -/
def busyAndIdle : MessageBroker :=
  { sampleBroker with
    workers :=
      ((sampleBroker.workers.insert 0 (Worker.new (text "w1"))).setBusy (text "w1")).1.insert 1
        (Worker.new (text "w2")) }

/-- The dispatch of one request. -/
def oneRequest : DispatchCall := ⟨some ⟨[text "body"]⟩, text "N/A"⟩

/-- At the expiry of the busy worker, which stays in the store, the other one gets the only
request. -/
theorem oneRequest_to_live :
    ∃ next worker,
      ((busyAndIdle.purgedFor 3000000000 oneRequest).workers.get (text "w1")).any
          (fun busy => !busy.idle && decide (busy.expiry ≤ 3000000000)) = true ∧
        dispatchTurn (busyAndIdle.purgedFor 3000000000 oneRequest) (text "N/A")
          (⟨[text "body"]⟩, text "N/A") [] = some next ∧
        next.journal = [.sent .internal
          (workerMessage worker mdpwRequest [] (some ⟨[text "body"]⟩))
          (busyAndIdle.purgedFor 3000000000 oneRequest).workers] ∧
        worker.identity = text "w2" ∧ 3000000000 < worker.expiry := by
  have completes : (dispatchTurn (busyAndIdle.purgedFor 3000000000 oneRequest) (text "N/A")
      (⟨[text "body"]⟩, text "N/A") []).isSome = true := by
    decide +kernel
  obtain ⟨next, turned⟩ := Option.isSome_iff_exists.mp completes
  have head : busyAndIdle.DispatchHead 3000000000 oneRequest
      [(⟨[text "body"]⟩, text "N/A")] (busyAndIdle.purgedFor 3000000000 oneRequest) := .enter
  obtain ⟨worker, sent, registered, late⟩ :=
    requests_to_live_workers busyAndIdle 3000000000 oneRequest head (by decide +kernel) turned
  obtain ⟨⟨node, stored, rfl⟩, -⟩ := get_eq_some.mp registered
  have only : ∀ node ∈ (busyAndIdle.purgedFor 3000000000 oneRequest).workers.cont.index .id,
      3000000000 < node.val.expiry → node.val.identity = text "w2" := by
    decide +kernel
  exact ⟨next, node.val, by decide +kernel, turned, sent, only node (mem_index.mpr stored) late,
    late⟩

end MessageBroker

end Cdcm.Frontend
