import Cdcm.Frontend.Lifecycle
import Cdcm.Frontend.RequestQueue

/-!
# Assignment of requests to workers

A `REQUEST` should go to an idle worker, so that no worker has two of them to
answer.  The dispatch loop takes its range of idle workers before the first turn
and falls back to the worker with the latest expiry, idle or not: requests go to
idle workers exactly as long as in every turn the worker of the session, or else
that last worker, is idle.
-/

namespace Cdcm.Frontend

open Json Protocol SessionsCache Zmq WorkerContainer Machine

namespace Traffic

/-- A `REQUEST` goes to a worker that is registered and idle at that moment. -/
def ToIdle : Traffic → Prop
  | .sent socket msg workers => ∀ target ∈ (Traffic.sent socket msg workers).request,
      (workers.get target.1).any Worker.idle = true
  | _ => True

instance (entry : Traffic) : Decidable entry.ToIdle :=
  match entry with
  | .sent socket msg workers => inferInstanceAs (Decidable
      (∀ target ∈ (Traffic.sent socket msg workers).request,
        (workers.get target.1).any Worker.idle = true))
  | .command .. | .handed _ => inferInstanceAs (Decidable True)

theorem Other.toIdle {entry : Traffic} (other : entry.Other) : entry.ToIdle := by
  obtain ⟨socket, msg, workers, rfl, noRequest⟩ := other
  intro target requested
  rw [noRequest] at requested
  contradiction

/-- The count of `REQUEST`s that a worker has not answered, behind an entry. -/
def countUnanswered (identity : ByteString) (count : Nat) (entry : Traffic) : Nat :=
  match entry with
  | .command sender name => if sender = identity ∧ name = mdpwReply then 0 else count
  | .handed _ => count
  | .sent socket msg workers =>
      match (Traffic.sent socket msg workers).request with
      | some (target, _) => if target = identity then count + 1 else count
      | none => count

end Traffic

namespace MessageBroker

variable {env : Environment} {broker next : MessageBroker}

/-- The number of `REQUEST`s sent to an identity since its last `REPLY`. -/
def unanswered (broker : MessageBroker) (identity : ByteString) : Nat :=
  broker.journal.foldl (Traffic.countUnanswered identity) 0

/-- Every `REQUEST` so far went to a registered and idle worker. -/
def RequestsToIdle (broker : MessageBroker) : Prop :=
  ∀ entry ∈ broker.journal, entry.ToIdle

instance (broker : MessageBroker) : Decidable broker.RequestsToIdle :=
  inferInstanceAs (Decidable (∀ entry ∈ broker.journal, entry.ToIdle))

/-! ## The condition on the turns of the dispatch loop -/

/-- The worker that last worked on a request's session is idle, or the worker with
the latest expiry is. -/
def ServesIdle (broker : MessageBroker) (front : Zmsg × ByteString) : Prop :=
  (broker.workers.getByLastWorkedSession front.2).any Worker.idle = true ∨
    broker.workers.getNextWorker.any Worker.idle = true

instance (broker : MessageBroker) (front : Zmsg × ByteString) :
    Decidable (broker.ServesIdle front) := inferInstanceAs (Decidable (_ ∨ _))

/-- In every turn of the loop over the queued requests, an idle worker serves. -/
def TurnsServeIdle (id : ByteString) : List (Zmsg × ByteString) → MessageBroker → Prop
  | [], _ => True
  | front :: rest, broker => broker.ServesIdle front ∧
      ∀ next ∈ broker.dispatchTurn id front rest, TurnsServeIdle id rest next

instance decidableTurnsServeIdle (id : ByteString) :
    (pending : List (Zmsg × ByteString)) → (broker : MessageBroker) →
      Decidable (TurnsServeIdle id pending broker)
  | [], _ => inferInstanceAs (Decidable True)
  | front :: rest, broker =>
      have : ∀ next, Decidable (TurnsServeIdle id rest next) :=
        decidableTurnsServeIdle id rest
      inferInstanceAs (Decidable (broker.ServesIdle front ∧
        ∀ next ∈ broker.dispatchTurn id front rest, TurnsServeIdle id rest next))

/-- When a dispatch enters its loop, all its turns serve idle workers. -/
def DispatchServesIdle (broker : MessageBroker) (now : Int) (call : DispatchCall) : Prop :=
  broker.anyIdle now = true →
    TurnsServeIdle call.id (broker.enqueue call).requests (broker.purgedFor now call)

instance (broker : MessageBroker) (now : Int) (call : DispatchCall) :
    Decidable (broker.DispatchServesIdle now call) := inferInstanceAs (Decidable (_ → _))

variable (env) in
/-- The dispatch behind an event, if any, serves idle workers only. -/
def EventServesIdle (broker : MessageBroker) (event : BrokerEvent) : Prop :=
  ∀ result ∈ broker.handle env event, ∀ call ∈ result.2,
    result.1.DispatchServesIdle (purgeTime event) call

instance (broker : MessageBroker) (event : BrokerEvent) :
    Decidable (broker.EventServesIdle env event) :=
  inferInstanceAs (Decidable (∀ result ∈ broker.handle env event, ∀ call ∈ result.2,
    result.1.DispatchServesIdle (purgeTime event) call))

/-- The selected worker is idle exactly under the condition of the turn. -/
theorem selectWorker_idle {front : Zmsg × ByteString} {worker : Worker}
    (selected : broker.selectWorker front.2 = some worker) :
    worker.idle = true ↔ broker.ServesIdle front := by
  rw [selectWorker] at selected
  rw [ServesIdle]
  cases last : broker.workers.getByLastWorkedSession front.2 with
  | none =>
      rw [last] at selected
      simp [selected]
  | some found =>
      rw [last] at selected
      cases flag : found.idle with
      | true =>
          simp only [flag, Bool.not_true, Bool.false_eq_true, if_false,
            Option.some.injEq] at selected
          simp [← selected, flag]
      | false =>
          simp only [flag, Bool.not_false, if_true] at selected
          simp [selected, flag]

/-! ## Registered identities contain no NUL byte -/

/-- Workers are registered under what is left of their identity as a C string. -/
def NulFreeIdentities (broker : MessageBroker) : Prop :=
  ∀ identity, broker.workers.exists identity = true → 0 ∉ identity

theorem nulFree_sender {frames : List ByteString} {read : WorkerCommand}
    (parsed : workerCommand frames = some read) : 0 ∉ read.sender := by
  rw [workerCommand] at parsed
  split at parsed
  · split at parsed
    · obtain rfl := Option.some.inj parsed
      exact zero_not_mem_cStr _
    · contradiction
  · contradiction

theorem NulFreeIdentities.handle {event : BrokerEvent} {call : Option DispatchCall}
    (nulFree : broker.NulFreeIdentities)
    (handled : broker.handle env event = some (next, call)) : next.NulFreeIdentities := by
  intro identity registered
  cases event with
  | worker frames clock =>
      cases parsed : workerCommand frames with
      | none =>
          obtain ⟨rfl, _⟩ := handle_worker_ignored parsed handled
          exact nulFree identity registered
      | some read =>
          have processed := handle_worker_command parsed handled
          by_cases equal : identity = read.sender
          · exact equal ▸ nulFree_sender parsed
          · rw [exists_iff, processed.get, if_neg equal, ← exists_iff] at registered
            exact nulFree identity registered
  | client frames input =>
      have processed := handle_client handled
      rw [processed.workers] at registered
      exact nulFree identity registered
  | timer now =>
      obtain ⟨_, _, rfl, _⟩ := handle_timer handled
      exact nulFree identity (exists_purged _ _ _ |>.mp registered).1
  | segment sessions =>
      obtain ⟨rfl, _⟩ := Prod.mk.inj (Option.some.inj handled)
      exact nulFree identity registered

theorem NulFreeIdentities.purgedFor {now : Int} {call : DispatchCall}
    (nulFree : broker.NulFreeIdentities) : (broker.purgedFor now call).NulFreeIdentities :=
  fun identity registered => nulFree identity (exists_purged _ _ _ |>.mp registered).1

theorem NulFreeIdentities.turn {id : ByteString} {front : Zmsg × ByteString}
    {rest : List (Zmsg × ByteString)} {worker : Worker}
    (nulFree : broker.NulFreeIdentities)
    (turned : DispatchTurned broker id front rest worker next) :
    next.NulFreeIdentities := by
  intro identity registered
  rw [exists_iff, turned.get] at registered
  apply nulFree
  rw [exists_iff]
  split at registered
  next equal => rw [equal, turned.registered]; rfl
  next => exact registered

/-- The worker of a turn is registered, so its identity survives as a C string. -/
theorem NulFreeIdentities.cStr_identity {id : ByteString} {front : Zmsg × ByteString}
    {rest : List (Zmsg × ByteString)} {worker : Worker}
    (nulFree : broker.NulFreeIdentities)
    (turned : DispatchTurned broker id front rest worker next) :
    cStr worker.identity = worker.identity :=
  cStr_of_zero_not_mem (nulFree _ (exists_of_get turned.registered))

/-! ## Requests go to idle workers -/

/-- Handlers send no requests. -/
theorem handle_journal {event : BrokerEvent} {call : Option DispatchCall}
    (handled : broker.handle env event = some (next, call)) :
    ∃ appended, next.journal = broker.journal ++ appended ∧
      ∀ entry ∈ appended, entry.ToIdle := by
  cases event with
  | worker frames clock =>
      cases parsed : workerCommand frames with
      | none =>
          obtain ⟨rfl, _⟩ := handle_worker_ignored parsed handled
          exact ⟨[], by simp, by simp⟩
      | some read =>
          obtain ⟨sent, appended, others⟩ := (handle_worker_command parsed handled).journal
          refine ⟨_, appended, ?_⟩
          rintro entry (_ | ⟨_, member⟩)
          · trivial
          · exact (others entry member).toIdle
  | client frames input =>
      have processed := handle_client handled
      obtain ⟨sent, appended, others⟩ := processed.others
      refine ⟨_, appended.trans (List.append_assoc _ _ _), fun entry member => ?_⟩
      rcases List.mem_append.mp member with isSent | isHanded
      · exact (others entry isSent).toIdle
      · obtain ⟨_, _, rfl⟩ := List.mem_map.mp isHanded
        trivial
  | timer now =>
      obtain ⟨_, sent, rfl, others⟩ := handle_timer handled
      exact ⟨sent, rfl, fun entry member => (others entry member).toIdle⟩
  | segment sessions =>
      obtain ⟨rfl, _⟩ := Prod.mk.inj (Option.some.inj handled)
      exact ⟨[], by simp, by simp⟩

/-- The request of a turn goes to an idle worker exactly under the condition. -/
theorem turn_toIdle {id : ByteString} {front : Zmsg × ByteString}
    {rest : List (Zmsg × ByteString)} {worker : Worker}
    (nulFree : broker.NulFreeIdentities)
    (turned : DispatchTurned broker id front rest worker next) :
    (Traffic.sent .internal (workerMessage worker mdpwRequest [] (some front.1))
      broker.workers).ToIdle ↔ broker.ServesIdle front := by
  rw [← selectWorker_idle turned.selected, Traffic.ToIdle, request_workerMessage,
    nulFree.cStr_identity turned]
  simp [turned.registered]

theorem requestsToIdle_turn_iff {id : ByteString} {front : Zmsg × ByteString}
    {rest : List (Zmsg × ByteString)} {worker : Worker}
    (toIdle : broker.RequestsToIdle) (nulFree : broker.NulFreeIdentities)
    (turned : DispatchTurned broker id front rest worker next) :
    next.RequestsToIdle ↔ broker.ServesIdle front := by
  rw [← turn_toIdle nulFree turned, RequestsToIdle, turned.journal]
  constructor
  · exact fun all => all _ (List.mem_append_right _ (List.mem_singleton_self _))
  · intro last entry member
    rcases List.mem_append.mp member with old | new
    · exact toIdle entry old
    · exact List.mem_singleton.mp new ▸ last

/-- The loop only adds to the journal. -/
theorem journal_of_dispatchLoop {range : WorkerIterator × WorkerIterator} {id : ByteString}
    {pending : List (Zmsg × ByteString)}
    (looped : dispatchLoop range id pending broker = some next) :
    broker.journal <+: next.journal := by
  have result := dispatchLoop_invariant (fun _ state => broker.journal <+: state.journal)
    (fun _ _ _ _ _ holds turned => holds.trans ⟨_, turned.journal.symm⟩)
    (fun _ => List.prefix_refl _) looped
  split at result
  · rw [result]
  · exact result

/-- The requests of the whole loop go to idle workers exactly when every turn
serves one. -/
theorem requestsToIdle_loop_iff {range : WorkerIterator × WorkerIterator}
    {id : ByteString} {pending : List (Zmsg × ByteString)}
    (entered : WorkerIterator.same range.1 range.2 = false)
    (toIdle : broker.RequestsToIdle) (nulFree : broker.NulFreeIdentities)
    (looped : dispatchLoop range id pending broker = some next) :
    next.RequestsToIdle ↔ TurnsServeIdle id pending broker := by
  induction pending generalizing broker with
  | nil =>
      rw [dispatchLoop_nil] at looped
      obtain rfl := Option.some.inj looped
      exact iff_of_true toIdle trivial
  | cons front rest ih =>
      simp only [dispatchLoop_cons, entered, Bool.not_false, if_true, Option.bind_eq_bind,
        Option.bind_eq_some_iff] at looped
      obtain ⟨turned, isTurned, looped⟩ := looped
      obtain ⟨worker, effect⟩ := dispatchTurn_spec isTurned
      have onTurn := requestsToIdle_turn_iff toIdle nulFree effect
      rw [TurnsServeIdle, isTurned]
      simp only [Option.mem_def, Option.some.injEq, forall_eq']
      by_cases serves : broker.ServesIdle front
      · rw [ih (onTurn.mpr serves) (nulFree.turn effect) looped]
        exact (and_iff_right serves).symm
      · refine iff_of_false (fun all => serves (onTurn.mp fun entry member => ?_))
          fun both => serves both.1
        exact all entry ((journal_of_dispatchLoop looped).subset member)

theorem requestsToIdle_dispatch_iff {now : Int} {call : DispatchCall}
    (toIdle : broker.RequestsToIdle) (nulFree : broker.NulFreeIdentities)
    (dispatched : broker.serviceDispatch now call = some next) :
    next.RequestsToIdle ↔ broker.DispatchServesIdle now call := by
  have start : (broker.purgedFor now call).RequestsToIdle := by
    rw [RequestsToIdle, journal_purgedFor]
    exact toIdle
  rw [serviceDispatch_eq] at dispatched
  rw [DispatchServesIdle]
  cases any : broker.anyIdle now with
  | true =>
      have entered : WorkerIterator.same (broker.workers.purged now).idleWorkers.1
          (broker.workers.purged now).idleWorkers.2 = false := by
        simpa [anyIdle] using any
      rw [requestsToIdle_loop_iff entered start nulFree.purgedFor dispatched]
      exact ⟨fun turns _ => turns, fun turns => turns rfl⟩
  | false =>
      have skipped : WorkerIterator.same (broker.workers.purged now).idleWorkers.1
          (broker.workers.purged now).idleWorkers.2 = true := by
        simpa [anyIdle] using any
      have result := dispatchLoop_invariant (fun _ _ => True) (fun _ _ _ _ _ _ _ => trivial)
        (fun _ => trivial) dispatched
      rw [skipped, if_pos rfl] at result
      exact iff_of_true (result ▸ start) fun entered => by cases entered

/-- An event sends requests to idle workers only exactly when the dispatch behind
it serves idle workers only. -/
theorem requestsToIdle_step_iff {event : BrokerEvent}
    (toIdle : broker.RequestsToIdle) (nulFree : broker.NulFreeIdentities)
    (stepped : broker.step env event = some next) :
    next.RequestsToIdle ↔ broker.EventServesIdle env event := by
  obtain ⟨handled, call, isHandled, rest⟩ := step_cases stepped
  obtain ⟨appended, journal, quiet⟩ := handle_journal isHandled
  have handledToIdle : handled.RequestsToIdle := by
    intro entry member
    rw [journal] at member
    exact (List.mem_append.mp member).elim (toIdle entry) (quiet entry)
  rw [EventServesIdle, isHandled]
  simp only [Option.mem_def, Option.some.injEq, forall_eq']
  rcases rest with ⟨rfl, rfl⟩ | ⟨made, rfl, dispatched⟩
  · exact iff_of_true handledToIdle nofun
  · rw [requestsToIdle_dispatch_iff handledToIdle (nulFree.handle isHandled) dispatched]
    simp

theorem NulFreeIdentities.step {event : BrokerEvent}
    (nulFree : broker.NulFreeIdentities) (stepped : broker.step env event = some next) :
    next.NulFreeIdentities := by
  obtain ⟨handled, call, isHandled, rest⟩ := step_cases stepped
  have handledNulFree := nulFree.handle isHandled
  rcases rest with ⟨_, rfl⟩ | ⟨made, _, dispatched⟩
  · exact handledNulFree
  · intro identity registered
    rw [exists_of_dispatch dispatched] at registered
    exact handledNulFree identity (exists_purged _ _ _ |>.mp registered).1

/-! ## Unanswered requests -/

/-- A registered worker has at most one request to answer, and none when idle. -/
def CountsAnswers (broker : MessageBroker) : Prop :=
  ∀ identity worker, broker.workers.get identity = some worker →
    broker.unanswered identity ≤ 1 ∧
      (worker.idle = true → broker.unanswered identity = 0)

/-- A stranger that a message makes a worker has answered its last request. -/
def JoinsAnswered (broker : MessageBroker) : BrokerEvent → Prop
  | .worker frames _ => ∀ read ∈ workerCommand frames,
      broker.workers.exists read.sender = false →
        read.command ∉ [mdpwReply, mdpwHeartbeat, mdpwDisconnect] →
          broker.unanswered read.sender = 0
  | _ => True

instance (broker : MessageBroker) (event : BrokerEvent) :
    Decidable (broker.JoinsAnswered event) :=
  match event with
  | .worker frames _ => inferInstanceAs (Decidable (∀ read ∈ workerCommand frames,
      broker.workers.exists read.sender = false →
        read.command ∉ [mdpwReply, mdpwHeartbeat, mdpwDisconnect] →
          broker.unanswered read.sender = 0))
  | .client .. | .timer _ | .segment _ => inferInstanceAs (Decidable True)

/-- Entries that are neither requests nor commands leave the counts. -/
theorem foldl_others {sent : List Traffic} (others : ∀ entry ∈ sent, entry.Other)
    (identity : ByteString) (count : Nat) :
    sent.foldl (Traffic.countUnanswered identity) count = count := by
  induction sent with
  | nil => rfl
  | cons head tail ih =>
      obtain ⟨socket, msg, workers, rfl, noRequest⟩ := others head List.mem_cons_self
      rw [List.foldl_cons, Traffic.countUnanswered, noRequest]
      exact ih fun entry member => others entry (List.mem_cons_of_mem _ member)

theorem unanswered_append {appended : List Traffic}
    (journal : next.journal = broker.journal ++ appended) (identity : ByteString) :
    next.unanswered identity =
      appended.foldl (Traffic.countUnanswered identity) (broker.unanswered identity) := by
  rw [unanswered, journal, List.foldl_append]
  rfl

/-- A turn that serves an idle worker adds one to the count of that worker. -/
theorem CountsAnswers.turn {id : ByteString} {front : Zmsg × ByteString}
    {rest : List (Zmsg × ByteString)} {worker : Worker}
    (counts : broker.CountsAnswers) (nulFree : broker.NulFreeIdentities)
    (serves : broker.ServesIdle front)
    (turned : DispatchTurned broker id front rest worker next) : next.CountsAnswers := by
  have wasZero : broker.unanswered worker.identity = 0 :=
    (counts _ _ turned.registered).2 ((selectWorker_idle turned.selected).mpr serves)
  intro identity other found
  have count : next.unanswered identity =
      if worker.identity = identity then broker.unanswered identity + 1
      else broker.unanswered identity := by
    rw [unanswered_append turned.journal]
    simp only [List.foldl_cons, List.foldl_nil, Traffic.countUnanswered,
      request_workerMessage, nulFree.cStr_identity turned]
  rw [turned.get] at found
  split at found
  next equal =>
    obtain rfl := Option.some.inj found
    rw [count, if_pos equal.symm, equal, wasZero]
    exact ⟨le_refl _, nofun⟩
  next different =>
    rw [count, if_neg (Ne.symm different)]
    exact counts identity other found

theorem CountsAnswers.dispatch {now : Int} {call : DispatchCall}
    (counts : broker.CountsAnswers) (nulFree : broker.NulFreeIdentities)
    (serves : broker.DispatchServesIdle now call)
    (dispatched : broker.serviceDispatch now call = some next) : next.CountsAnswers := by
  have start : (broker.purgedFor now call).CountsAnswers := by
    intro identity worker found
    rw [unanswered, journal_purgedFor]
    refine counts identity worker ?_
    have kept : ((broker.workers.purged now).get identity) = some worker := found
    rw [get_purged] at kept
    exact (Option.filter_eq_some_iff.mp kept).1
  have result := serviceDispatch_invariant
    (fun pending state => state.CountsAnswers ∧ state.NulFreeIdentities ∧
      TurnsServeIdle call.id pending state)
    (fun front rest state turned worker ⟨holds, free, meets⟩ effect =>
      ⟨holds.turn free meets.1 effect, free.turn effect, meets.2 turned effect.turned⟩)
    (fun any => ⟨start, nulFree.purgedFor, serves any⟩) dispatched
  rcases result with ⟨rfl, _⟩ | ⟨holds, _⟩
  · exact start
  · exact holds

/-- A worker's message keeps the counts, when a stranger that it makes a worker
has answered its last request. -/
theorem CountsAnswers.processed {clock : WorkerClock}
    {sender command client : ByteString} {call : Option DispatchCall}
    (counts : broker.CountsAnswers)
    (joins : broker.workers.get sender = none →
      command ∉ [mdpwReply, mdpwHeartbeat, mdpwDisconnect] → broker.unanswered sender = 0)
    (processed : WorkerProcessed broker clock sender command client next call) :
    next.CountsAnswers := by
  obtain ⟨sent, appended, others⟩ := processed.journal
  have count : ∀ identity, next.unanswered identity =
      if sender = identity ∧ command = mdpwReply then 0 else broker.unanswered identity := by
    intro identity
    rw [unanswered_append appended, List.foldl_cons, foldl_others others,
      Traffic.countUnanswered]
  intro identity worker found
  rw [processed.get] at found
  split at found
  next equal =>
    subst equal
    rw [count]
    rw [afterCommand] at found
    rcases command_cases command with rfl | rfl | rfl | rfl | unhandled
    · cases stored : broker.workers.get identity with
      | some current => simp [stored] at found
      | none => simp [joins stored (by decide), mdpwReady, mdpwReply]
    · simp
    · cases stored : broker.workers.get identity with
      | some current =>
          simp only [stored, commanded_heartbeat, Option.isSome_some, if_true,
            Option.getD_some, Option.some.injEq] at found
          subst found
          rw [if_neg (by simp [mdpwHeartbeat, mdpwReply])]
          exact counts identity current stored
      | none => simp [stored] at found
    · simp at found
    · have others := unhandled
      simp only [handledCommands, List.mem_cons, List.not_mem_nil, or_false,
        not_or] at others
      rw [commanded_unhandled unhandled, Option.some.injEq] at found
      rw [if_neg fun both => others.2.1 both.2]
      cases stored : broker.workers.get identity with
      | some current =>
          rw [stored, Option.getD_some] at found
          exact found ▸ counts identity current stored
      | none => simp [joins stored (by simp [others])]
  next different =>
    rw [count, if_neg fun both => different both.1.symm]
    exact counts identity worker found

theorem CountsAnswers.step {event : BrokerEvent} (counts : broker.CountsAnswers)
    (nulFree : broker.NulFreeIdentities) (serves : broker.EventServesIdle env event)
    (joins : broker.JoinsAnswered event)
    (stepped : broker.step env event = some next) : next.CountsAnswers := by
  obtain ⟨handled, call, isHandled, rest⟩ := step_cases stepped
  have appends : ∀ {appended : List Traffic}, (∀ entry ∈ appended,
      ∀ identity count, Traffic.countUnanswered identity count entry = count) →
      ∀ identity count,
        appended.foldl (Traffic.countUnanswered identity) count = count := by
    intro appended silent identity count
    induction appended with
    | nil => rfl
    | cons head tail ih =>
        rw [List.foldl_cons, silent head List.mem_cons_self]
        exact ih fun entry member => silent entry (List.mem_cons_of_mem _ member)
  have handledCounts : handled.CountsAnswers := by
    cases event with
    | worker frames clock =>
        cases parsed : workerCommand frames with
        | none =>
            obtain ⟨rfl, _⟩ := handle_worker_ignored parsed isHandled
            exact counts
        | some read =>
            refine counts.processed (fun absent others => ?_)
              (handle_worker_command parsed isHandled)
            exact joins read parsed (exists_eq_false.mpr absent) others
    | client frames input =>
        have processed := handle_client isHandled
        obtain ⟨sent, appended, others⟩ := processed.others
        intro identity worker found
        rw [processed.workers] at found
        have same : handled.unanswered identity = broker.unanswered identity := by
          rw [unanswered_append (appended.trans (List.append_assoc _ _ _)),
            List.foldl_append, foldl_others others]
          refine appends ?_ _ _
          intro entry member
          obtain ⟨_, _, rfl⟩ := List.mem_map.mp member
          exact fun _ _ => rfl
        rw [same]
        exact counts identity worker found
    | timer now =>
        obtain ⟨_, sent, rfl, others⟩ := handle_timer isHandled
        intro identity worker found
        have same : unanswered { broker with
            workers := broker.workers.purged now
            journal := broker.journal ++ sent } identity = broker.unanswered identity := by
          rw [unanswered, List.foldl_append]
          exact foldl_others others _ _
        rw [same]
        rw [get_purged] at found
        exact counts identity worker (Option.filter_eq_some_iff.mp found).1
    | segment sessions =>
        obtain ⟨rfl, _⟩ := Prod.mk.inj (Option.some.inj isHandled)
        exact counts
  rcases rest with ⟨_, rfl⟩ | ⟨made, rfl, dispatched⟩
  · exact handledCounts
  · exact handledCounts.dispatch (nulFree.handle isHandled)
      (serves _ isHandled made rfl) dispatched

/-- Assignment: along every run whose dispatches serve idle workers, every
`REQUEST` goes to a registered and idle worker, and the dispatch of a next event
decides whether it stays so. When moreover a joining worker has answered its last
`REQUEST`, no registered worker has more than one of them since its last `REPLY`. -/
theorem requests_go_to_idle_workers {heartbeatExpiry : Nat}
    {sessions : SharedMemSessionsCache} {events : List BrokerEvent}
    (run : Run (step env) (EventServesIdle env) (new heartbeatExpiry sessions) events
      broker) :
    broker.RequestsToIdle ∧
      (∀ event next, broker.step env event = some next →
        (next.RequestsToIdle ↔ broker.EventServesIdle env event)) ∧
      (Run (step env) (fun state event => state.EventServesIdle env event ∧
          state.JoinsAnswered event) (new heartbeatExpiry sessions) events broker →
        ∀ identity, broker.workers.exists identity = true →
          broker.unanswered identity ≤ 1) := by
  have start : (new heartbeatExpiry sessions).NulFreeIdentities := by
    intro identity registered
    rw [exists_iff] at registered
    simp [new] at registered
  have holds : broker.RequestsToIdle ∧ broker.NulFreeIdentities :=
    run.invariant (fun state => state.RequestsToIdle ∧ state.NulFreeIdentities)
      ⟨fun _ member => absurd member List.not_mem_nil, start⟩
      fun _ _ _ held serves stepped =>
        ⟨(requestsToIdle_step_iff held.1 held.2 stepped).mpr serves, held.2.step stepped⟩
  refine ⟨holds.1, fun _ _ => requestsToIdle_step_iff holds.1 holds.2, ?_⟩
  intro joining identity registered
  have counts : broker.CountsAnswers ∧ broker.NulFreeIdentities :=
    joining.invariant (fun state => state.CountsAnswers ∧ state.NulFreeIdentities)
      ⟨fun _ _ found => by simp [new] at found, start⟩
      fun _ _ _ held served stepped =>
        ⟨held.1.step held.2 served.1 served.2 stepped, held.2.step stepped⟩
  obtain ⟨worker, found⟩ := Option.isSome_iff_exists.mp (exists_iff.mp registered)
  exact (counts.1 identity worker found).1

/-- Two workers serve two clients. -/
theorem requests_go_to_idle_workers_pair :
    ∃ broker, Run (step (sampleEnv [sampleBody [pingAction "1"]]))
        (EventServesIdle (sampleEnv [sampleBody [pingAction "1"]])) sampleBroker
        [workerSends "w1" mdpwReady [] 0, workerSends "w2" mdpwReady [] 1,
          clientSends "c1" (sampleBody [pingAction "1"]) 2,
          clientSends "c2" (sampleBody [pingAction "1"]) 3] broker ∧
      broker.unanswered (text "w2") = 1 ∧ broker.RequestsToIdle := by
  refine (Run.exists_of_exec (fun broker : MessageBroker =>
      decide (broker.unanswered (text "w2") = 1))
    (by decide +kernel)).imp fun broker ⟨run, counted⟩ =>
      ⟨run, of_decide_eq_true counted, ?_⟩
  exact (requests_go_to_idle_workers run).1

/-- Two requests wait when the only worker registers: both are sent to it. -/
theorem queuedPair_overloads :
    ∃ broker, Run (step (sampleEnv [sampleBody [pingAction "1"]])) Unguarded sampleBroker
        [clientSends "c1" (sampleBody [pingAction "1"]) 0,
          clientSends "c2" (sampleBody [pingAction "1"]) 1,
          workerSends "w1" mdpwReady [] 2] broker ∧
      ¬ broker.RequestsToIdle ∧ broker.workers.exists (text "w1") = true ∧
      broker.unanswered (text "w1") = 2 := by
  refine (Run.exists_of_exec (fun broker : MessageBroker =>
      decide (¬ broker.RequestsToIdle ∧ broker.workers.exists (text "w1") = true ∧
        broker.unanswered (text "w1") = 2))
    (by decide +kernel)).imp fun broker ⟨run, overloaded⟩ => ⟨run, ?_⟩
  exact of_decide_eq_true overloaded

end MessageBroker

end Cdcm.Frontend
