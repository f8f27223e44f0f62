import Cdcm.Frontend.Assignment

/-!
# The session a worker last worked on

The broker notes with each worker the session of the request that it sends to it, so
that later requests of the session go to the same worker.  What it should note is the
session that the request was queued with, and a record beside the broker keeps just
that: of every registered worker, the requests that it was sent since it registered.
-/

namespace Cdcm.Frontend

open Json Protocol SessionsCache Zmq WorkerContainer Machine

/-- A request that went to a worker, and the session of the request. -/
structure Assigned where
  identity : ByteString
  session : ByteString
  deriving DecidableEq, Repr

/-- A broker, with the requests that each registered worker was sent since it
registered. -/
structure Bookkeeping where
  broker : MessageBroker
  assigned : List Assigned

namespace MessageBroker

/-- The requests behind a position of the journal, each with its session: the dispatch
sends the queued requests from the front on. -/
def assignedSince (before after : MessageBroker) (queue : List (Zmsg × ByteString)) :
    List Assigned :=
  List.zipWith (fun request queued => ⟨request.1, queued.2⟩)
    ((after.journal.drop before.journal.length).filterMap Traffic.request) queue

/-- The entries of workers that are still registered. -/
def retain (broker : MessageBroker) (assigned : List Assigned) : List Assigned :=
  assigned.filter fun entry => broker.workers.exists entry.identity

end MessageBroker

namespace Bookkeeping

/-- The session of the request that a worker was last sent. -/
def lastSession (assigned : List Assigned) (identity : ByteString) : ByteString :=
  assigned.foldl (fun last entry => if entry.identity = identity then entry.session else last)
    (text "N/A")

/-- A new broker has sent nothing. -/
def new (heartbeatExpiry : Nat) (sessions : SharedMemSessionsCache) : Bookkeeping :=
  ⟨.new heartbeatExpiry sessions, []⟩

section Step

variable (env : Environment) (books : Bookkeeping) (event : BrokerEvent)

/-- Handle one event, and keep the record. -/
def step : Option Bookkeeping := do
  let (handled, call) ← books.broker.handle env event
  let assigned := handled.retain books.assigned
  match call with
  | none => return ⟨handled, assigned⟩
  | some call => do
      let broker ← handled.serviceDispatch (MessageBroker.purgeTime event) call
      return ⟨broker, broker.retain assigned ++
        handled.assignedSince broker (handled.enqueue call).requests⟩

/-- A dispatch that finds an idle worker finds no request queued with another session
than the one it was called with. -/
def QueuesOne (broker : MessageBroker) (now : Int) (call : DispatchCall) : Prop :=
  broker.anyIdle now = true → ∀ queued ∈ (broker.enqueue call).requests, queued.2 = call.id

instance (broker : MessageBroker) (now : Int) (call : DispatchCall) :
    Decidable (QueuesOne broker now call) :=
  inferInstanceAs (Decidable (broker.anyIdle now = true →
    ∀ queued ∈ (broker.enqueue call).requests, queued.2 = call.id))

/-- The dispatch behind an event, if any, is called with the session of its requests. -/
def CallsOwn : Prop :=
  ∀ result ∈ books.broker.handle env event, ∀ call ∈ result.2,
    QueuesOne result.1 (MessageBroker.purgeTime event) call

instance : Decidable (CallsOwn env books event) :=
  inferInstanceAs (Decidable (∀ result ∈ books.broker.handle env event,
    ∀ call ∈ result.2, QueuesOne result.1 (MessageBroker.purgeTime event) call))

end Step

variable {env : Environment} {books next : Bookkeeping}

/-- The record changes nothing about the broker. -/
theorem step_iff {event : BrokerEvent} {broker : MessageBroker} :
    (∃ assigned, books.step env event = some ⟨broker, assigned⟩) ↔
      books.broker.step env event = some broker := by
  simp only [step, MessageBroker.step, Option.bind_eq_bind, Option.bind_eq_some_iff,
    Prod.exists]
  constructor
  · rintro ⟨assigned, handled, call, isHandled, stepped⟩
    refine ⟨handled, call, isHandled, ?_⟩
    cases call with
    | none =>
        obtain ⟨rfl, _⟩ := mk.inj (Option.some.inj stepped)
        rfl
    | some call =>
        obtain ⟨dispatched, isDispatched, same⟩ := Option.bind_eq_some_iff.mp stepped
        obtain ⟨rfl, _⟩ := mk.inj (Option.some.inj same)
        exact isDispatched
  · rintro ⟨handled, call, isHandled, stepped⟩
    cases call with
    | none =>
        obtain rfl := Option.some.inj stepped
        exact ⟨_, handled, none, isHandled, rfl⟩
    | some call =>
        exact ⟨_, handled, some call, isHandled,
          Option.bind_eq_some_iff.mpr ⟨broker, stepped, rfl⟩⟩

/-! ## The record -/

theorem lastSession_append (assigned more : List Assigned) (identity : ByteString) :
    lastSession (assigned ++ more) identity =
      more.foldl (fun last entry => if entry.identity = identity then entry.session else last)
        (lastSession assigned identity) :=
  List.foldl_append

/-- A worker without an entry was sent no request. -/
theorem lastSession_of_absent {assigned : List Assigned} {identity : ByteString}
    (absent : ∀ entry ∈ assigned, entry.identity ≠ identity) :
    lastSession assigned identity = text "N/A" := by
  induction assigned using List.reverseRecOn with
  | nil => rfl
  | append_singleton front entry ih =>
      have apart := absent entry (List.mem_append_right _ (List.mem_singleton_self _))
      rw [lastSession_append, List.foldl_cons, List.foldl_nil, if_neg apart]
      exact ih fun other member => absent other (List.mem_append_left _ member)

/-- Dropping the entries of other workers leaves the one of a registered worker. -/
theorem lastSession_retain {broker : MessageBroker} {assigned : List Assigned}
    {identity : ByteString} (registered : broker.workers.exists identity = true) :
    lastSession (broker.retain assigned) identity = lastSession assigned identity := by
  induction assigned using List.reverseRecOn with
  | nil => rfl
  | append_singleton front entry ih =>
      rw [MessageBroker.retain, List.filter_append, lastSession_append, lastSession_append,
        ← MessageBroker.retain, ih]
      by_cases same : entry.identity = identity
      · have kept : [entry].filter (fun entry => broker.workers.exists entry.identity) =
            [entry] := by
          simp [same, registered]
        rw [kept]
      · rw [List.foldl_cons, List.foldl_nil, if_neg same]
        by_cases kept : broker.workers.exists entry.identity = true
        · simp [kept, same]
        · simp [kept]

/-! ## The broker keeps the record -/

/-- The record has entries of registered workers only, and each worker was last worked
on the session that the record has. -/
structure Kept (broker : MessageBroker) (assigned : List Assigned) : Prop where
  registered : ∀ entry ∈ assigned, broker.workers.exists entry.identity = true
  booked : ∀ identity worker, broker.workers.get identity = some worker →
    worker.lastWorkedSession = lastSession assigned identity

theorem commanded_lastWorkedSession {expiryFrom : Int → Int} {clock : WorkerClock}
    {command client : ByteString} {ready : Bool} {current worker : Worker}
    (left : MessageBroker.commanded expiryFrom clock command client ready current =
      some worker) : worker.lastWorkedSession = current.lastWorkedSession := by
  rcases MessageBroker.command_cases command with rfl | rfl | rfl | rfl | unhandled
  · rw [MessageBroker.commanded_ready] at left
    split at left
    · contradiction
    · exact Option.some.inj left ▸ rfl
  · rw [MessageBroker.commanded_reply] at left
    split at left
    · contradiction
    · split at left <;> exact Option.some.inj left ▸ rfl
  · rw [MessageBroker.commanded_heartbeat] at left
    split at left
    · exact Option.some.inj left ▸ rfl
    · contradiction
  · contradiction
  · rw [MessageBroker.commanded_unhandled unhandled] at left
    exact Option.some.inj left ▸ rfl

/-- A handler keeps the session of a worker that stays, and a new worker has none. -/
theorem handle_session {broker handled : MessageBroker} {event : BrokerEvent}
    {call : Option DispatchCall} (isHandled : broker.handle env event = some (handled, call))
    {identity : ByteString} {worker : Worker}
    (found : handled.workers.get identity = some worker) :
    (∃ old, broker.workers.get identity = some old ∧
        worker.lastWorkedSession = old.lastWorkedSession) ∨
      broker.workers.get identity = none ∧ worker.lastWorkedSession = text "N/A" := by
  cases event with
  | worker frames clock =>
      cases parsed : workerCommand frames with
      | none =>
          obtain ⟨rfl, _⟩ := MessageBroker.handle_worker_ignored parsed isHandled
          exact .inl ⟨worker, found, rfl⟩
      | some read =>
          have processed := MessageBroker.handle_worker_command parsed isHandled
          rw [processed.get] at found
          split at found
          next same =>
            have kept := commanded_lastWorkedSession found
            rw [same]
            cases stored : broker.workers.get read.sender with
            | none =>
                rw [stored] at kept
                exact .inr ⟨rfl, kept⟩
            | some old =>
                rw [stored] at kept
                exact .inl ⟨old, rfl, kept⟩
          next => exact .inl ⟨worker, found, rfl⟩
  | client frames input =>
      rw [(MessageBroker.handle_client isHandled).workers] at found
      exact .inl ⟨worker, found, rfl⟩
  | timer now =>
      obtain ⟨_, _, rfl, _⟩ := MessageBroker.handle_timer isHandled
      rw [get_purged] at found
      exact .inl ⟨worker, (Option.filter_eq_some_iff.mp found).1, rfl⟩
  | segment sessions =>
      obtain ⟨rfl, _⟩ := Prod.mk.inj (Option.some.inj isHandled)
      exact .inl ⟨worker, found, rfl⟩

/-- The record of the workers that stay is kept over a handler. -/
theorem Kept.handle {broker handled : MessageBroker} {assigned : List Assigned}
    {event : BrokerEvent} {call : Option DispatchCall} (kept : Kept broker assigned)
    (isHandled : broker.handle env event = some (handled, call)) :
    Kept handled (handled.retain assigned) := by
  constructor
  · intro entry member
    exact (List.mem_filter.mp member).2
  · intro identity worker found
    rw [lastSession_retain (exists_of_get found)]
    rcases handle_session isHandled found with ⟨old, stored, same⟩ | ⟨absent, isNew⟩
    · rw [same]
      exact kept.booked identity old stored
    · rw [isNew, lastSession_of_absent]
      intro entry member same
      have stored := kept.registered entry member
      rw [same, exists_iff, absent] at stored
      contradiction

/-- A purge keeps the record of the workers that stay. -/
theorem Kept.purgedFor {broker : MessageBroker} {assigned : List Assigned} {now : Int}
    {call : DispatchCall} (kept : Kept broker assigned) :
    Kept (broker.purgedFor now call) ((broker.purgedFor now call).retain assigned) := by
  constructor
  · intro entry member
    exact (List.mem_filter.mp member).2
  · intro identity worker found
    rw [lastSession_retain (exists_of_get found)]
    have purged : (broker.workers.purged now).get identity = some worker := found
    rw [get_purged] at purged
    exact kept.booked identity worker (Option.filter_eq_some_iff.mp purged).1

/-- A turn that is called with the session of its request notes that session. -/
theorem Kept.turn {broker turned : MessageBroker} {assigned : List Assigned}
    {id : ByteString} {front : Zmsg × ByteString} {rest : List (Zmsg × ByteString)}
    {worker : Worker} (kept : Kept broker assigned) (own : front.2 = id)
    (effect : MessageBroker.DispatchTurned broker id front rest worker turned) :
    Kept turned (assigned ++ [⟨worker.identity, front.2⟩]) := by
  constructor
  · intro entry member
    rw [exists_iff, effect.get]
    split
    · rfl
    · rename_i apart
      rcases List.mem_append.mp member with old | new
      · exact exists_iff.mp (kept.registered entry old)
      · obtain rfl := List.mem_singleton.mp new
        exact absurd rfl apart
  · intro identity other found
    rw [lastSession_append, List.foldl_cons, List.foldl_nil]
    rw [effect.get] at found
    split at found
    next same =>
      obtain rfl := Option.some.inj found
      rw [if_pos same.symm, own]
    next apart =>
      rw [if_neg (Ne.symm apart)]
      exact kept.booked identity other found

/-- In front of a turn: the requests on the wire are the front of the queue, and the
record that has them is kept. -/
structure Turning (before : MessageBroker) (queue : List (Zmsg × ByteString))
    (assigned : List Assigned) (id : ByteString) (pending : List (Zmsg × ByteString))
    (broker : MessageBroker) : Prop where
  nulFree : broker.NulFreeIdentities
  own : ∀ queued ∈ pending, queued.2 = id
  served : ∃ sent done, broker.journal = before.journal ++ sent ∧ queue = done ++ pending ∧
    (sent.filterMap Traffic.request).length = done.length ∧
    Kept broker (assigned ++ List.zipWith (fun request queued => ⟨request.1, queued.2⟩)
      (sent.filterMap Traffic.request) done)

theorem Turning.turn {before broker turned : MessageBroker}
    {queue rest : List (Zmsg × ByteString)} {assigned : List Assigned} {id : ByteString}
    {front : Zmsg × ByteString} {worker : Worker}
    (turning : Turning before queue assigned id (front :: rest) broker)
    (effect : MessageBroker.DispatchTurned broker id front rest worker turned) :
    Turning before queue assigned id rest turned := by
  obtain ⟨nulFree, own, sent, done, journal, isQueue, sameLength, kept⟩ := turning
  let entry : Traffic := .sent .internal
    (MessageBroker.workerMessage worker mdpwRequest [] (some front.1)) broker.workers
  have request : entry.request = some (worker.identity, front.1) := by
    rw [MessageBroker.request_workerMessage, nulFree.cStr_identity effect]
  refine ⟨nulFree.turn effect, ?_, sent ++ [entry], done ++ [front], ?_, ?_, ?_, ?_⟩
  · exact fun queued member => own queued (List.mem_cons_of_mem _ member)
  · rw [effect.journal, journal, List.append_assoc]
  · rw [isQueue, List.append_assoc]
    rfl
  · rw [List.filterMap_append, List.length_append, List.length_append, sameLength]
    simp [request]
  · have turnedKept := kept.turn (own front List.mem_cons_self) effect
    rw [List.append_assoc] at turnedKept
    rw [List.filterMap_append, List.zipWith_append sameLength]
    simpa [request] using turnedKept

/-- A dispatch that is called with the session of its requests keeps the record. -/
theorem Kept.dispatch {broker dispatched : MessageBroker} {assigned : List Assigned}
    {now : Int} {call : DispatchCall} (kept : Kept broker assigned)
    (nulFree : broker.NulFreeIdentities) (own : QueuesOne broker now call)
    (isDispatched : broker.serviceDispatch now call = some dispatched) :
    Kept dispatched (dispatched.retain assigned ++
      broker.assignedSince dispatched (broker.enqueue call).requests) := by
  have sameRetained : dispatched.retain assigned =
      (broker.purgedFor now call).retain assigned := by
    apply List.filter_congr
    intro entry _
    exact MessageBroker.exists_of_dispatch isDispatched entry.identity
  rw [sameRetained]
  have result := MessageBroker.serviceDispatch_invariant
    (Turning broker (broker.enqueue call).requests
      ((broker.purgedFor now call).retain assigned) call.id)
    (fun front rest state turned worker turning effect => turning.turn effect)
    (fun idle => by
      refine ⟨nulFree.purgedFor, own idle, [], [], ?_, rfl, rfl, ?_⟩
      · rw [MessageBroker.journal_purgedFor, List.append_nil]
      · rw [List.filterMap_nil, List.zipWith_nil_left, List.append_nil]
        exact kept.purgedFor)
    isDispatched
  rcases result with ⟨rfl, _⟩ | ⟨_, _, sent, done, journal, isQueue, _, turnedKept⟩
  · rw [MessageBroker.assignedSince, MessageBroker.journal_purgedFor, List.drop_length,
      List.filterMap_nil, List.zipWith_nil_left, List.append_nil]
    exact kept.purgedFor
  · rw [MessageBroker.assignedSince, journal, List.drop_left, isQueue, List.append_nil]
    exact turnedKept

theorem Kept.step {event : BrokerEvent} (kept : Kept books.broker books.assigned)
    (nulFree : books.broker.NulFreeIdentities) (own : CallsOwn env books event)
    (stepped : books.step env event = some next) : Kept next.broker next.assigned := by
  simp only [Bookkeeping.step, Option.bind_eq_bind, Option.bind_eq_some_iff,
    Prod.exists] at stepped
  obtain ⟨handled, call, isHandled, stepped⟩ := stepped
  have handledKept := kept.handle isHandled
  cases call with
  | none =>
      obtain rfl := Option.some.inj stepped
      exact handledKept
  | some call =>
      obtain ⟨dispatched, isDispatched, same⟩ := Option.bind_eq_some_iff.mp stepped
      obtain rfl := Option.some.inj same
      exact handledKept.dispatch (nulFree.handle isHandled)
        (own _ isHandled call rfl) isDispatched

/-- Along every run whose dispatches are called with the session of their requests, each
registered worker last worked on the session of the request that it was last sent since
it registered, or on `N/A` when it was sent none. -/
theorem last_worked_session_kept {heartbeatExpiry : Nat} {sessions : SharedMemSessionsCache}
    {events : List BrokerEvent}
    (run : Run (step env) (CallsOwn env) (new heartbeatExpiry sessions) events books)
    {identity : ByteString} {worker : Worker}
    (registered : books.broker.workers.get identity = some worker) :
    worker.lastWorkedSession = lastSession books.assigned identity := by
  have empty : ∀ identity, (new heartbeatExpiry sessions).broker.workers.get identity = none :=
    fun _ => rfl
  have holds := run.invariant
    (fun state => Kept state.broker state.assigned ∧ state.broker.NulFreeIdentities)
    ⟨⟨fun entry member => absurd member List.not_mem_nil,
        fun identity worker found => by rw [empty] at found; contradiction⟩,
      fun identity found => by rw [exists_iff, empty] at found; contradiction⟩
    fun state event next ⟨kept, nulFree⟩ own stepped =>
      ⟨kept.step nulFree own stepped, nulFree.step (step_iff.mp ⟨_, stepped⟩)⟩
  exact holds.1.booked identity worker registered

/-- A body of a session. -/
def sessionBody (session : String) : Value :=
  .object [(text "H", .object [(text "session_id", .string (text session))]),
    (text "msgs", .array [pingAction "1"])]

/-- The bodies that the samples send. -/
def sampleSessions : Environment :=
  sampleEnv [sessionBody "s1", sessionBody "s2"]

/-- Two clients send requests of two sessions to one worker, which answers the first. -/
def answeredEvents : List BrokerEvent :=
  [workerSends "w1" mdpwReady [] 0, clientSends "c1" (sessionBody "s1") 1,
    workerSends "w1" mdpwReply [text "c1", [], text "done"] 2,
    clientSends "c2" (sessionBody "s2") 3]

theorem last_worked_session_kept_answered :
    ∃ books, Run (step sampleSessions) (CallsOwn sampleSessions) (new 3000 (.empty 21600))
        answeredEvents books ∧
      ∃ worker, books.broker.workers.get (text "w1") = some worker ∧
        books.assigned.length = 2 ∧
        worker.lastWorkedSession = lastSession books.assigned (text "w1") := by
  obtain ⟨books, run, found⟩ := Run.exists_of_exec
    (fun books : Bookkeeping => decide ((books.broker.workers.get (text "w1")).isSome ∧
      books.assigned.length = 2))
    (by decide +kernel : (exec (step sampleSessions) (CallsOwn sampleSessions)
      (new 3000 (.empty 21600)) answeredEvents).any _ = true)
  obtain ⟨isRegistered, areTwo⟩ := of_decide_eq_true found
  obtain ⟨worker, registered⟩ := Option.isSome_iff_exists.mp isRegistered
  exact ⟨books, run, worker, registered, areTwo, last_worked_session_kept run registered⟩

/-- A request of the session `s1` waits until a worker registers: the worker is noted
with the empty session that the handler of `READY` calls the dispatch with. -/
theorem queuedRequest_misbooked :
    ∃ books, Run (step sampleSessions) Unguarded (new 3000 (.empty 21600))
        [clientSends "c1" (sessionBody "s1") 0, workerSends "w1" mdpwReady [] 1] books ∧
      books.assigned = [⟨text "w1", text "s1"⟩] ∧
      (books.broker.workers.get (text "w1")).map Worker.lastWorkedSession = some [] := by
  obtain ⟨books, run, found⟩ := Run.exists_of_exec
    (fun books : Bookkeeping => decide (books.assigned = [⟨text "w1", text "s1"⟩] ∧
      (books.broker.workers.get (text "w1")).map Worker.lastWorkedSession = some []))
    (by decide +kernel : (exec (step sampleSessions) Unguarded (new 3000 (.empty 21600))
      [clientSends "c1" (sessionBody "s1") 0, workerSends "w1" mdpwReady [] 1]).any _ = true)
  exact ⟨books, run, of_decide_eq_true found⟩

end Bookkeeping

end Cdcm.Frontend
