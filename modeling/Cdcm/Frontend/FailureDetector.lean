import Cdcm.Frontend.Assignment
import Cdcm.Frontend.DispatchTargets
import Cdcm.Lib.Lease

/-!
# The broker as a failure detector

What the broker knows of its workers is when it last heard of them.  The place of a
worker is a lease: a message grants or renews it for the heartbeat expiry, its
farewell revokes it, and a purge that finds the worker idle ends it once it has run
out.  The worker store holds exactly these leases, and requests are sent only to
workers whose lease has not run out.
-/

namespace Cdcm.Frontend

open Json Protocol SessionsCache Zmq WorkerContainer Machine

/-- Up to when an identity is registered. -/
def WorkerContainer.heldUntil (workers : WorkerContainer) (identity : ByteString) :
    Option Int :=
  (workers.get identity).map Worker.expiry

namespace MessageBroker

/-! ## The leases of workers -/

/-- What a command does to the lease of its sender, which is held if the sender is
registered. -/
def commandLease (expiryFrom : Int → Int) (clock : WorkerClock) (command client : ByteString)
    (registered : Bool) : List (Lease.Event Int) :=
  if command = mdpwReady then
    if registered then [.revoke] else [.grant (expiryFrom clock.update)]
  else if command = mdpwReply then
    if client = [] then [] else [.renew (expiryFrom clock.update)]
  else if command = mdpwHeartbeat then [.renew (expiryFrom clock.update)]
  else if command = mdpwDisconnect then [.revoke]
  else if registered then []
  else [.grant (expiryFrom clock.insert)]

/-- What the message of an event does to the lease of an identity. -/
def messageLease (heartbeatExpiry : Nat) (broker : MessageBroker) (event : BrokerEvent)
    (identity : ByteString) : List (Lease.Event Int) :=
  match event with
  | .worker frames clock =>
      match workerCommand frames with
      | some read =>
          if identity = read.sender then
            commandLease (WorkerContainer.empty heartbeatExpiry).expiryFrom clock read.command
              read.client (broker.workers.exists identity)
          else []
      | none => []
  | _ => []

variable (env : Environment)

/-- A purge sweeps the leases of the workers that it finds idle. -/
def purgeLease (broker : MessageBroker) (event : BrokerEvent) (identity : ByteString) :
    List (Lease.Event Int) :=
  match broker.storeAtPurge env event with
  | some workers =>
      if workers.isIdle identity then [.sweep fun expiry => expiry ≤ purgeTime event] else []
  | none => []

/-- What an event does to the lease of an identity. -/
def eventLease (heartbeatExpiry : Nat) (identity : ByteString) (broker : MessageBroker)
    (event : BrokerEvent) : List (Lease.Event Int) :=
  messageLease heartbeatExpiry broker event identity ++ purgeLease env broker event identity

/-- The history of the lease of an identity, over the events of a run. -/
def leaseHistory (heartbeatExpiry : Nat) (identity : ByteString) (start : MessageBroker)
    (events : List BrokerEvent) : List (Lease.Event Int) :=
  emitted (step env) (eventLease env heartbeatExpiry identity) start events

/-! ## The store holds the leases -/

variable {env} {broker next : MessageBroker} {heartbeatExpiry : Nat}

/-- A command does to its sender what it does to the lease. -/
theorem afterCommand_lease {expiryFrom : Int → Int} {clock : WorkerClock}
    {sender command client : ByteString} (registered : Option Worker) :
    (afterCommand expiryFrom clock sender command client registered).map Worker.expiry =
      Lease.run (registered.map Worker.expiry)
        (commandLease expiryFrom clock command client registered.isSome) := by
  rcases command_cases command with rfl | rfl | rfl | rfl | unhandled
  · cases registered <;> rfl
  · rw [afterCommand, commanded_reply]
    cases registered with
    | none => by_cases empty : client = [] <;> simp [commandLease, empty] <;> rfl
    | some worker => by_cases empty : client = [] <;> simp [commandLease, empty] <;> rfl
  · cases registered <;> rfl
  · cases registered <;> rfl
  · rw [afterCommand, commanded_unhandled unhandled]
    simp only [handledCommands, List.mem_cons, List.not_mem_nil, or_false, not_or] at unhandled
    obtain ⟨notReady, notReply, notHeartbeat, notDisconnect⟩ := unhandled
    rw [commandLease, if_neg notReady, if_neg notReply, if_neg notHeartbeat,
      if_neg notDisconnect]
    cases registered <;> rfl

/-- A purge ends the leases that it sweeps. -/
theorem heldUntil_purged (workers : WorkerContainer) (now : Int) (identity : ByteString) :
    (workers.purged now).heldUntil identity =
      Lease.run (workers.heldUntil identity)
        (if workers.isIdle identity then [.sweep fun expiry => expiry ≤ now] else []) := by
  rw [heldUntil, heldUntil, get_purged]
  cases found : workers.get identity with
  | none => split <;> rfl
  | some worker =>
      have isIdle : workers.isIdle identity = worker.idle := by
        rw [Bool.eq_iff_iff, isIdle_iff, found]
        simp
      rw [isIdle]
      cases flag : worker.idle with
      | true =>
          by_cases late : worker.expiry ≤ now <;>
            simp [expired, flag, late, Lease.step, Option.filter_some]
      | false => simp [expired, flag, Option.filter_some]

/-- A dispatch changes leases by its purge only. -/
theorem heldUntil_dispatch {now : Int} {call : DispatchCall}
    (dispatched : broker.serviceDispatch now call = some next) (identity : ByteString) :
    next.workers.heldUntil identity = (broker.workers.purged now).heldUntil identity := by
  have result := serviceDispatch_invariant
    (fun _ state => state.workers.heldUntil identity =
      (broker.workers.purged now).heldUntil identity)
    (fun _ _ state turned worker holds effect => by
      rw [← holds, heldUntil, heldUntil, effect.get]
      split
      next equal => rw [equal, effect.registered]; rfl
      next => rfl)
    (fun _ => rfl) dispatched
  rcases result with ⟨rfl, _⟩ | holds
  · rfl
  · exact holds

/-- A handler other than the timer's does to leases what its message does. -/
theorem heldUntil_handle {event : BrokerEvent} {call : Option DispatchCall}
    (sameExpiry : broker.workers.heartbeatExpiry = heartbeatExpiry)
    (handled : broker.handle env event = some (next, call))
    (noTimer : ∀ now, event ≠ .timer now) (identity : ByteString) :
    next.workers.heldUntil identity =
      Lease.run (broker.workers.heldUntil identity)
        (messageLease heartbeatExpiry broker event identity) := by
  cases event with
  | worker frames clock =>
      rw [messageLease]
      cases parsed : workerCommand frames with
      | none =>
          obtain ⟨rfl, _⟩ := handle_worker_ignored parsed handled
          rfl
      | some read =>
          have processed := handle_worker_command parsed handled
          have sameFrom : broker.workers.expiryFrom =
              (WorkerContainer.empty heartbeatExpiry).expiryFrom := by
            funext now
            rw [expiryFrom, sameExpiry]
            rfl
          dsimp only
          rw [heldUntil, processed.get]
          split
          next equal =>
            have registered : broker.workers.exists identity =
                (broker.workers.get read.sender).isSome := by
              rw [Bool.eq_iff_iff, exists_iff, equal]
            rw [afterCommand_lease, sameFrom, registered, heldUntil, equal]
          next => rfl
  | client frames input =>
      rw [(handle_client handled).workers]
      rfl
  | timer now => exact absurd rfl (noTimer now)
  | segment sessions =>
      obtain ⟨rfl, _⟩ := Prod.mk.inj (Option.some.inj handled)
      rfl

/-- An event does to the store what it does to the leases. -/
theorem heldUntil_step {event : BrokerEvent}
    (sameExpiry : broker.workers.heartbeatExpiry = heartbeatExpiry)
    (stepped : broker.step env event = some next) (identity : ByteString) :
    next.workers.heldUntil identity =
      Lease.run (broker.workers.heldUntil identity)
        (eventLease env heartbeatExpiry identity broker event) := by
  obtain ⟨handled, call, isHandled, rest⟩ := step_cases stepped
  rw [eventLease, Lease.run_append]
  by_cases isTimer : ∃ now, event = .timer now
  · obtain ⟨now, rfl⟩ := isTimer
    obtain ⟨rfl, sent, rfl, _⟩ := handle_timer isHandled
    obtain rfl := step_eq_handle stepped isHandled
    exact heldUntil_purged broker.workers now identity
  · have noTimer : ∀ now, event ≠ .timer now := fun now same => isTimer ⟨now, same⟩
    rw [← heldUntil_handle sameExpiry isHandled noTimer]
    have store : broker.storeAtPurge env event = call.map fun _ => handled.workers := by
      cases event with
      | timer now => exact absurd rfl (noTimer now)
      | worker frames clock => cases call <;> simp [storeAtPurge, isHandled]
      | client frames input => cases call <;> simp [storeAtPurge, isHandled]
      | segment sessions => cases call <;> simp [storeAtPurge, isHandled]
    rw [purgeLease, store]
    rcases rest with ⟨rfl, rfl⟩ | ⟨made, rfl, dispatched⟩
    · rfl
    · rw [heldUntil_dispatch dispatched, heldUntil_purged]
      rfl

/-- A purge erases workers only. -/
theorem heartbeatExpiry_purged (workers : WorkerContainer) (now : Int) :
    (workers.purged now).heartbeatExpiry = workers.heartbeatExpiry := by
  rw [WorkerContainer.purged]
  generalize ((workers.idleRange workers.idleWorkers).filter fun worker =>
    worker.expiry ≤ now) = culled
  induction culled generalizing workers with
  | nil => rfl
  | cons worker culled ih => rw [List.foldl_cons, ih, heartbeatExpiry_erase]

theorem heartbeatExpiry_handle {event : BrokerEvent} {call : Option DispatchCall}
    (handled : broker.handle env event = some (next, call)) :
    next.workers.heartbeatExpiry = broker.workers.heartbeatExpiry := by
  cases event with
  | worker frames clock =>
      cases parsed : workerCommand frames with
      | none =>
          obtain ⟨rfl, _⟩ := handle_worker_ignored parsed handled
          rfl
      | some read => exact (handle_worker_command parsed handled).heartbeatExpiry
  | client frames input => rw [(handle_client handled).workers]
  | timer now =>
      obtain ⟨_, _, rfl, _⟩ := handle_timer handled
      exact heartbeatExpiry_purged _ _
  | segment sessions =>
      obtain ⟨rfl, _⟩ := Prod.mk.inj (Option.some.inj handled)
      rfl

/-- The heartbeat expiry stays what it is. -/
theorem heartbeatExpiry_step {event : BrokerEvent}
    (stepped : broker.step env event = some next) :
    next.workers.heartbeatExpiry = broker.workers.heartbeatExpiry := by
  obtain ⟨handled, call, isHandled, rest⟩ := step_cases stepped
  rw [← heartbeatExpiry_handle isHandled]
  rcases rest with ⟨_, rfl⟩ | ⟨made, _, dispatched⟩
  · rfl
  · have result := serviceDispatch_invariant
      (fun _ state => state.workers.heartbeatExpiry = handled.workers.heartbeatExpiry)
      (fun _ _ _ _ _ holds effect => effect.heartbeatExpiry.trans holds)
      (fun _ => heartbeatExpiry_purged _ _) dispatched
    rcases result with ⟨rfl, _⟩ | holds
    · exact heartbeatExpiry_purged _ _
    · exact holds

/-! ## Requests -/

/-- Handlers send no requests. -/
theorem handle_requests {event : BrokerEvent} {call : Option DispatchCall}
    (handled : broker.handle env event = some (next, call)) :
    ∃ sent, next.journal = broker.journal ++ sent ∧
      ∀ entry ∈ sent, entry.request = none := by
  have quiet : ∀ {entry : Traffic}, entry.Other → entry.request = none := by
    rintro entry ⟨_, _, _, _, none⟩
    exact none
  cases event with
  | worker frames clock =>
      cases parsed : workerCommand frames with
      | none =>
          obtain ⟨rfl, _⟩ := handle_worker_ignored parsed handled
          exact ⟨[], by simp, by simp⟩
      | some read =>
          obtain ⟨sent, appended, others⟩ := (handle_worker_command parsed handled).journal
          refine ⟨_, appended, fun entry member => ?_⟩
          rcases List.mem_cons.mp member with rfl | member
          · rfl
          · exact quiet (others entry member)
  | client frames input =>
      obtain ⟨sent, appended, others⟩ := (handle_client handled).others
      refine ⟨_, appended.trans (List.append_assoc _ _ _), fun entry member => ?_⟩
      rcases List.mem_append.mp member with isSent | isHanded
      · exact quiet (others entry isSent)
      · obtain ⟨_, _, rfl⟩ := List.mem_map.mp isHanded
        rfl
  | timer now =>
      obtain ⟨_, sent, rfl, others⟩ := handle_timer handled
      exact ⟨sent, rfl, fun entry member => quiet (others entry member)⟩
  | segment sessions =>
      obtain ⟨rfl, _⟩ := Prod.mk.inj (Option.some.inj handled)
      exact ⟨[], by simp, by simp⟩

/-- The requests among these entries went to workers that are held for longer. -/
def ToHeld (now : Int) (workers : WorkerContainer) (sent : List Traffic) : Prop :=
  ∀ entry ∈ sent, ∀ request ∈ entry.request,
    ∃ expiry, workers.heldUntil request.1 = some expiry ∧ now < expiry

/-- What a dispatch has sent so far, in front of a turn of its loop. -/
structure SendsToHeld (now : Int) (before broker : MessageBroker) : Prop where
  live : broker.HasLive now
  nulFree : broker.NulFreeIdentities
  sent : ∃ sent, broker.journal = before.journal ++ sent ∧ ToHeld now broker.workers sent

/-- A turn sends its request to a worker that is held, and changes no expiry. -/
theorem SendsToHeld.turn {now : Int} {before : MessageBroker} {id : ByteString}
    {front : Zmsg × ByteString} {rest : List (Zmsg × ByteString)} {worker : Worker}
    (sends : SendsToHeld now before broker)
    (turned : DispatchTurned broker id front rest worker next) :
    SendsToHeld now before next := by
  obtain ⟨live, nulFree, sent, journal, toHeld⟩ := sends
  have sameHeld : ∀ identity,
      next.workers.heldUntil identity = broker.workers.heldUntil identity := by
    intro identity
    rw [heldUntil, heldUntil, turned.get]
    split
    next equal => rw [equal, turned.registered]; rfl
    next => rfl
  refine ⟨live.turn turned.turned, nulFree.turn turned, sent ++ [_],
    by rw [turned.journal, journal, List.append_assoc], ?_⟩
  intro entry member request requested
  rw [sameHeld]
  rcases List.mem_append.mp member with old | new
  · exact toHeld entry old request requested
  · rw [List.mem_singleton.mp new, request_workerMessage, nulFree.cStr_identity turned,
      Option.mem_some_iff] at requested
    obtain rfl := requested
    exact ⟨worker.expiry, by rw [heldUntil, turned.registered]; rfl,
      live.selected turned.selected⟩

/-- A dispatch sends requests only to workers that are held for longer. -/
theorem dispatch_toHeld {now : Int} {call : DispatchCall} (nulFree : broker.NulFreeIdentities)
    (dispatched : broker.serviceDispatch now call = some next) :
    ∃ sent, next.journal = broker.journal ++ sent ∧ ToHeld now next.workers sent := by
  have result := serviceDispatch_invariant (fun _ state => SendsToHeld now broker state)
    (fun _ _ _ _ _ sends turned => sends.turn turned)
    (fun idle => by
      have entered : WorkerIterator.same (broker.workers.purged now).idleWorkers.1
          (broker.workers.purged now).idleWorkers.2 = false := by
        simpa [anyIdle] using idle
      exact ⟨hasLive_purgedFor entered, nulFree.purgedFor, [],
        by rw [journal_purgedFor, List.append_nil], by simp [ToHeld]⟩)
    dispatched
  rcases result with ⟨rfl, _⟩ | sends
  · exact ⟨[], by rw [journal_purgedFor, List.append_nil], by simp [ToHeld]⟩
  · exact sends.sent

/-- So does an event. -/
theorem step_toHeld {event : BrokerEvent} (nulFree : broker.NulFreeIdentities)
    (stepped : broker.step env event = some next) :
    ∃ sent, next.journal = broker.journal ++ sent ∧
      ToHeld (purgeTime event) next.workers sent := by
  obtain ⟨handled, call, isHandled, rest⟩ := step_cases stepped
  obtain ⟨quiet, journal, noRequest⟩ := handle_requests isHandled
  have nothing : ∀ workers, ToHeld (purgeTime event) workers quiet := by
    intro workers entry member request requested
    rw [noRequest entry member] at requested
    contradiction
  rcases rest with ⟨_, rfl⟩ | ⟨made, _, dispatched⟩
  · exact ⟨quiet, journal, nothing _⟩
  · obtain ⟨sent, more, toHeld⟩ := dispatch_toHeld (nulFree.handle isHandled) dispatched
    refine ⟨quiet ++ sent, by rw [more, journal, List.append_assoc], ?_⟩
    intro entry member
    rcases List.mem_append.mp member with old | new
    · exact nothing _ entry old
    · exact toHeld entry new

/-! ## Runs -/

section Runs

variable {sessions : SharedMemSessionsCache} {events : List BrokerEvent}

/-- Along every run, the store holds the leases that the events so far have made. -/
theorem heldUntil_run {guard : MessageBroker → BrokerEvent → Prop}
    (run : Run (step env) guard (new heartbeatExpiry sessions) events broker)
    (identity : ByteString) :
    broker.workers.heldUntil identity =
      Lease.run none
        (leaseHistory env heartbeatExpiry identity (new heartbeatExpiry sessions) events) := by
  have sameExpiry : ∀ {events : List BrokerEvent} {broker : MessageBroker},
      Run (step env) guard (new heartbeatExpiry sessions) events broker →
        broker.workers.heartbeatExpiry = heartbeatExpiry := by
    intro events broker run
    exact run.invariant (fun broker => broker.workers.heartbeatExpiry = heartbeatExpiry) rfl
      fun _ _ _ same _ stepped => (heartbeatExpiry_step stepped).trans same
  exact run.follows_emitted fun _ _ _ _ run _ stepped =>
    heldUntil_step (sameExpiry run) stepped identity

/-- The failure detector: in every run, an identity is registered up to some expiry
exactly if a message of its worker has granted it a lease, no farewell has revoked it
since, the expiry is that of the last sign of life, and no purge since has found the
worker idle with its lease run out. -/
theorem registered_iff_leased
    (run : Run (step env) Unguarded (new heartbeatExpiry sessions) events broker)
    (identity : ByteString) (expiry : Int) :
    (∃ worker, broker.workers.get identity = some worker ∧ worker.expiry = expiry) ↔
      Lease.Granted (leaseHistory env heartbeatExpiry identity
        (new heartbeatExpiry sessions) events) expiry := by
  rw [← Lease.run_eq_some_iff, ← heldUntil_run run, heldUntil, Option.map_eq_some_iff]

/-- Two workers register, one of them sends a heartbeat, and a purge comes when only
the lease of the other one has run out. -/
def twoLeases : List BrokerEvent :=
  [workerSends "w1" mdpwReady [] 0, workerSends "w2" mdpwReady [] 0,
    workerSends "w2" mdpwHeartbeat [] 2000000000, .timer 3000000000]

/-- The silent one is given up, and the other one is held from its heartbeat on. -/
theorem registered_iff_leased_heartbeat :
    ∃ broker, Run (step (sampleEnv [])) Unguarded sampleBroker twoLeases broker ∧
      (∀ expiry, ¬ Lease.Granted
        (leaseHistory (sampleEnv []) 3000 (text "w1") sampleBroker twoLeases) expiry) ∧
      Lease.Granted (leaseHistory (sampleEnv []) 3000 (text "w2") sampleBroker twoLeases)
        5000000000 := by
  refine (Run.exists_of_exec (fun broker : MessageBroker =>
      decide (broker.workers.get (text "w1") = none) &&
        (broker.workers.get (text "w2")).any fun worker => decide (worker.expiry = 5000000000))
    (by decide +kernel)).imp fun broker ⟨run, observed⟩ => ⟨run, ?_, ?_⟩
  all_goals
    rw [Bool.and_eq_true, decide_eq_true_iff, Option.any_eq_true] at observed
    obtain ⟨gone, worker, registered, isExpiry⟩ := observed
  · intro expiry granted
    obtain ⟨worker, found, -⟩ := (registered_iff_leased run (text "w1") expiry).mpr granted
    rw [gone] at found
    contradiction
  · exact (registered_iff_leased run (text "w2") 5000000000).mp
      ⟨worker, registered, of_decide_eq_true isExpiry⟩

/-- No request to a silent worker: in every run, each request that an event sends goes
to a worker whose lease, as its messages so far have made it, lasts beyond the time at
which the event purges. -/
theorem requests_to_leased_workers
    (run : Run (step env) Unguarded (new heartbeatExpiry sessions) events broker)
    {event : BrokerEvent} (stepped : broker.step env event = some next) :
    ∃ sent, next.journal = broker.journal ++ sent ∧
      ∀ entry ∈ sent, ∀ request ∈ entry.request, ∃ expiry,
        Lease.Granted (leaseHistory env heartbeatExpiry request.1
          (new heartbeatExpiry sessions) (events ++ [event])) expiry ∧
        purgeTime event < expiry := by
  have nulFree := run.invariant NulFreeIdentities
    (fun identity registered => by simp [new, exists_iff] at registered)
    fun _ _ _ nulFree _ stepped => nulFree.step stepped
  obtain ⟨sent, journal, toHeld⟩ := step_toHeld nulFree stepped
  refine ⟨sent, journal, fun entry member request requested => ?_⟩
  obtain ⟨expiry, held, late⟩ := toHeld entry member request requested
  have longer := Run.snoc run trivial stepped
  rw [heldUntil_run longer, Lease.run_eq_some_iff] at held
  exact ⟨expiry, held, late⟩

/-- A worker serves the request of a client one second after it has registered. -/
theorem requests_to_leased_workers_ready :
    ∃ broker next, Run (step (sampleEnv [sampleBody [pingAction "1"]])) Unguarded sampleBroker
        [workerSends "w1" mdpwReady [] 0] broker ∧
      broker.step (sampleEnv [sampleBody [pingAction "1"]])
        (clientSends "c1" (sampleBody [pingAction "1"]) 1000000000) = some next ∧
      ∃ sent, next.journal = broker.journal ++ sent ∧
        ∀ entry ∈ sent, ∀ request ∈ entry.request, ∃ expiry,
          Lease.Granted (leaseHistory (sampleEnv [sampleBody [pingAction "1"]]) 3000 request.1
            sampleBroker [workerSends "w1" mdpwReady [] 0,
              clientSends "c1" (sampleBody [pingAction "1"]) 1000000000]) expiry ∧
          1000000000 < expiry := by
  obtain ⟨broker, run, completes⟩ :
      ∃ broker, Run (step (sampleEnv [sampleBody [pingAction "1"]])) Unguarded sampleBroker
        [workerSends "w1" mdpwReady [] 0] broker ∧
        (broker.step (sampleEnv [sampleBody [pingAction "1"]])
          (clientSends "c1" (sampleBody [pingAction "1"]) 1000000000)).isSome = true :=
    Run.exists_of_exec (fun broker : MessageBroker =>
      (broker.step (sampleEnv [sampleBody [pingAction "1"]])
        (clientSends "c1" (sampleBody [pingAction "1"]) 1000000000)).isSome) (by decide +kernel)
  obtain ⟨next, stepped⟩ := Option.isSome_iff_exists.mp completes
  exact ⟨broker, next, run, stepped, requests_to_leased_workers run stepped⟩

end Runs

end MessageBroker

end Cdcm.Frontend
