import Cdcm.Frontend.BrokerRun

/-!
# The life cycle of workers

When a worker is registered: from its first `READY` until its `DISCONNECT`, a
second `READY`, or a purge that finds it idle and expired.  The broker follows this
automaton as long as no stranger sends a command without a branch in
`worker_process`; such a stranger stays registered.
-/

namespace Cdcm.Frontend

open Json Protocol SessionsCache Zmq WorkerContainer Machine

namespace MessageBroker

variable {env : Environment} {broker next : MessageBroker}

/-- Whether an identity is registered after a command of its own. -/
def commandKeeps (command : ByteString) (registered : Bool) : Bool :=
  if registered then command ≠ mdpwDisconnect && command ≠ mdpwReady
  else command = mdpwReady

/-- Whether an identity is registered after the message of an event, by the
automaton. -/
def messageKeeps (broker : MessageBroker) (event : BrokerEvent)
    (identity : ByteString) : Bool :=
  match event with
  | .worker frames _ =>
      match workerCommand frames with
      | some read =>
          if identity = read.sender then
            commandKeeps read.command (broker.workers.exists identity)
          else broker.workers.exists identity
      | none => broker.workers.exists identity
  | _ => broker.workers.exists identity

variable (env) in
/-- The store that an event purges, if it does: the timer's at once, and the one
that a handler leaves behind when it dispatches. -/
def storeAtPurge (broker : MessageBroker) (event : BrokerEvent) :
    Option WorkerContainer :=
  match event with
  | .timer _ => some broker.workers
  | _ =>
      match broker.handle env event with
      | some (handled, some _) => some handled.workers
      | _ => none

variable (env) in
/-- An event purges an identity: its worker is idle and has expired. -/
def Purges (broker : MessageBroker) (event : BrokerEvent) (identity : ByteString) : Prop :=
  ∃ workers ∈ broker.storeAtPurge env event, ∃ worker,
    workers.get identity = some worker ∧ worker.idle = true ∧
      worker.expiry ≤ purgeTime event

variable (env) in
/-- What an event should do to the registered workers. -/
structure FollowsLifecycle (broker : MessageBroker) (event : BrokerEvent)
    (next : MessageBroker) : Prop where
  registered : ∀ identity, next.workers.exists identity = true ↔
    broker.messageKeeps event identity = true ∧ ¬ broker.Purges env event identity
  stranger : ∀ frames clock read, event = .worker frames clock →
    workerCommand frames = some read → broker.workers.get read.sender = none →
    read.command ≠ mdpwReady →
      ∀ identity, next.workers.get identity = broker.workers.get identity

/-- A message whose command has no branch comes from a registered worker. -/
def NoStrayCommand (broker : MessageBroker) : BrokerEvent → Prop
  | .worker frames _ => ∀ read ∈ workerCommand frames,
      read.command ∈ handledCommands ∨ broker.workers.exists read.sender = true
  | _ => True

instance (broker : MessageBroker) (event : BrokerEvent) :
    Decidable (broker.NoStrayCommand event) :=
  match event with
  | .worker frames _ => inferInstanceAs (Decidable (∀ read ∈ workerCommand frames,
      read.command ∈ handledCommands ∨ broker.workers.exists read.sender = true))
  | .client .. | .timer _ | .segment _ => inferInstanceAs (Decidable True)

/-- A purge unregisters the idle workers that have expired. -/
theorem exists_purged (workers : WorkerContainer) (now : Int) (identity : ByteString) :
    (workers.purged now).exists identity = true ↔
      workers.exists identity = true ∧ ¬ ∃ worker,
        workers.get identity = some worker ∧ worker.idle = true ∧ worker.expiry ≤ now := by
  rw [exists_iff, exists_iff, get_purged]
  cases workers.get identity with
  | none => simp
  | some worker =>
      by_cases gone : expired now worker = true
      · have culled : worker.idle = true ∧ worker.expiry ≤ now := by
          simpa [expired] using gone
        simp [Option.filter_some, gone, culled.1, culled.2]
      · have kept : ¬ (worker.idle = true ∧ worker.expiry ≤ now) := by
          simpa [expired] using gone
        simp only [Option.filter_some, gone, Bool.not_false, if_true, Option.isSome_some,
          Option.some.injEq, true_and, exists_eq_left', kept, not_false_eq_true]

/-- A dispatch changes the registered workers by its purge only. -/
theorem exists_of_dispatch {now : Int} {call : DispatchCall}
    (dispatched : broker.serviceDispatch now call = some next) (identity : ByteString) :
    next.workers.exists identity = (broker.workers.purged now).exists identity := by
  have result := serviceDispatch_invariant
    (fun _ state => state.workers.exists identity =
      (broker.workers.purged now).exists identity)
    (fun _ _ state turned worker holds effect => by
      rw [← holds, Bool.eq_iff_iff, exists_iff, exists_iff, effect.get]
      split
      next equal => rw [equal, effect.registered]; rfl
      next => rfl)
    (fun _ => rfl) dispatched
  rcases result with ⟨rfl, _⟩ | holds
  · rfl
  · exact holds

/-- A command that has a branch, or comes from a registered worker, keeps its
sender registered as the automaton says; any other command of a stranger does
not. -/
theorem commanded_isSome (expiryFrom : Int → Int) (clock : WorkerClock)
    (command client : ByteString) (ready : Bool) (current : Worker) :
    (commanded expiryFrom clock command client ready current).isSome =
        commandKeeps command ready ↔ command ∈ handledCommands ∨ ready = true := by
  rcases command_cases command with rfl | rfl | rfl | rfl | unhandled
  · exact iff_of_true (by cases ready <;> rfl) (.inl (by decide))
  · refine iff_of_true ?_ (.inl (by decide))
    rw [commanded_reply]
    cases ready with
    | false => rfl
    | true => by_cases empty : client = [] <;> simp [empty] <;> rfl
  · exact iff_of_true (by cases ready <;> rfl) (.inl (by decide))
  · exact iff_of_true (by cases ready <;> rfl) (.inl (by decide))
  · rw [commanded_unhandled unhandled]
    have others := unhandled
    simp only [handledCommands, List.mem_cons, List.not_mem_nil, or_false, not_or] at others
    cases ready <;> simp [commandKeeps, unhandled, others]

/-- Behind the handler, an event unregisters exactly the workers it purges. -/
theorem exists_of_step {event : BrokerEvent} {handled : MessageBroker}
    {call : Option DispatchCall} (stepped : broker.step env event = some next)
    (isHandled : broker.handle env event = some (handled, call))
    (noTimer : ∀ now, event ≠ .timer now) (identity : ByteString) :
    next.workers.exists identity = true ↔
      handled.workers.exists identity = true ∧ ¬ broker.Purges env event identity := by
  obtain ⟨other, otherCall, otherHandled, rest⟩ := step_cases stepped
  obtain ⟨rfl, rfl⟩ := Prod.mk.inj (Option.some.inj (isHandled.symm.trans otherHandled))
  have store : broker.storeAtPurge env event = call.map fun _ => handled.workers := by
    cases event with
    | timer now => exact absurd rfl (noTimer now)
    | worker frames clock => cases call <;> simp [storeAtPurge, isHandled]
    | client frames input => cases call <;> simp [storeAtPurge, isHandled]
    | segment sessions => cases call <;> simp [storeAtPurge, isHandled]
  rcases rest with ⟨rfl, rfl⟩ | ⟨made, rfl, dispatched⟩
  · simp [Purges, store]
  · rw [exists_of_dispatch dispatched, exists_purged]
    simp [Purges, store]

/-- A worker message keeps identities registered as the automaton says exactly when
its command has a branch or its sender was registered. -/
theorem exists_processed {clock : WorkerClock} {sender command client : ByteString}
    {call : Option DispatchCall}
    (processed : WorkerProcessed broker clock sender command client next call) :
    next.workers.exists sender = commandKeeps command (broker.workers.exists sender) ↔
      command ∈ handledCommands ∨ broker.workers.exists sender = true := by
  have ready : broker.workers.exists sender = (broker.workers.get sender).isSome :=
    Bool.eq_iff_iff.mpr exists_iff
  have after : next.workers.exists sender = (next.workers.get sender).isSome :=
    Bool.eq_iff_iff.mpr exists_iff
  rw [after, ready, processed.get, if_pos rfl]
  exact commanded_isSome _ _ _ _ _ _

/-- A stranger's message other than `READY` dispatches nothing, and leaves the
stranger unregistered when its command has a branch. -/
theorem stranger_processed {clock : WorkerClock} {sender command client : ByteString}
    {call : Option DispatchCall}
    (processed : WorkerProcessed broker clock sender command client next call)
    (stranger : broker.workers.get sender = none) (notReady : command ≠ mdpwReady) :
    call = none ∧ (command ∈ handledCommands → next.workers.get sender = none) := by
  constructor
  · rw [processed.call_eq, stranger]
    simp [waits, notReady]
  · intro handled
    rw [processed.get, if_pos rfl, afterCommand, stranger]
    rcases command_cases command with rfl | rfl | rfl | rfl | unhandled
    · exact absurd rfl notReady
    · rfl
    · rfl
    · rfl
    · exact absurd handled unhandled

/-- A worker's command follows the life cycle exactly when it has a branch, or its sender is
registered. -/
theorem followsLifecycle_command_iff {frames : List ByteString} {clock : WorkerClock}
    {read : WorkerCommand} (stepped : broker.step env (.worker frames clock) = some next)
    (parsed : workerCommand frames = some read) :
    broker.FollowsLifecycle env (.worker frames clock) next ↔
      read.command ∈ handledCommands ∨ broker.workers.exists read.sender = true := by
  obtain ⟨handled, call, isHandled, -⟩ := step_cases stepped
  obtain ⟨sender, command, client⟩ := read
  have processed := handle_worker_command parsed isHandled
  have membership := exists_of_step stepped isHandled nofun
  have keeps := exists_processed processed
  have others : ∀ identity, identity ≠ sender →
      handled.workers.get identity = broker.workers.get identity := by
    intro identity different
    rw [processed.get, if_neg different]
  rw [← keeps]
  constructor
  · intro follows
    by_cases known : command ∈ handledCommands ∨ broker.workers.exists sender = true
    · exact keeps.mpr known
    · obtain ⟨unhandled, unregistered⟩ := not_or.mp known
      have absent := exists_eq_false.mp (Bool.eq_false_of_not_eq_true unregistered)
      have notReady : command ≠ mdpwReady := fun isReady =>
        unhandled (isReady ▸ List.mem_cons_self)
      obtain ⟨rfl, _⟩ := stranger_processed processed absent notReady
      obtain rfl := step_eq_handle stepped isHandled
      have gone := follows.stranger frames clock _ rfl parsed absent notReady sender
      rw [absent] at gone
      have unkept : commandKeeps command (broker.workers.exists sender) = false := by
        rw [exists_eq_false.mpr absent]
        simp [commandKeeps, notReady]
      rw [exists_eq_false.mpr gone, unkept]
  · intro kept
    refine ⟨fun identity => ?_, ?_⟩
    · rw [membership, messageKeeps, parsed]
      dsimp only
      split
      next equal => rw [equal, kept]
      next different => rw [exists_iff, others identity different, ← exists_iff]
    · rintro _ _ read ⟨⟩ sameRead absent notReady identity
      obtain rfl := Option.some.inj (parsed.symm.trans sameRead)
      obtain ⟨rfl, leaves⟩ := stranger_processed processed absent notReady
      have handledCommand : command ∈ handledCommands :=
        (keeps.mp kept).resolve_right (by rw [exists_eq_false.mpr absent]; simp)
      obtain rfl := step_eq_handle stepped isHandled
      by_cases equal : identity = sender
      · rw [equal, leaves handledCommand]
        exact absent.symm
      · exact others identity equal

/-- An event follows the life cycle exactly when it brings no stray command. -/
theorem followsLifecycle_iff {event : BrokerEvent}
    (stepped : broker.step env event = some next) :
    broker.FollowsLifecycle env event next ↔ broker.NoStrayCommand event := by
  obtain ⟨handled, call, isHandled, -⟩ := step_cases stepped
  cases event with
  | worker frames clock =>
      have membership := exists_of_step stepped isHandled nofun
      cases parsed : workerCommand frames with
      | none =>
          obtain ⟨rfl, rfl⟩ := handle_worker_ignored parsed isHandled
          refine iff_of_true ⟨fun identity => ?_, ?_⟩ (by simp [NoStrayCommand, parsed])
          · rw [membership, messageKeeps, parsed]
          · rintro _ _ read ⟨⟩ impossible
            rw [parsed] at impossible
            contradiction
      | some read =>
          rw [followsLifecycle_command_iff stepped parsed]
          simp [NoStrayCommand, parsed]
  | client frames input =>
      have processed := handle_client isHandled
      refine iff_of_true ⟨fun identity => ?_, nofun⟩ trivial
      rw [exists_of_step stepped isHandled nofun, processed.workers]
      rfl
  | timer now =>
      obtain ⟨rfl, sent, rfl, _⟩ := handle_timer isHandled
      obtain rfl := step_eq_handle stepped isHandled
      refine iff_of_true ⟨fun identity => ?_, nofun⟩ trivial
      rw [exists_purged]
      simp [messageKeeps, Purges, storeAtPurge, purgeTime]
  | segment sessions =>
      refine iff_of_true ⟨fun identity => ?_, nofun⟩ trivial
      rw [exists_of_step stepped isHandled nofun]
      obtain ⟨rfl, rfl⟩ := Prod.mk.inj (Option.some.inj isHandled)
      rfl

/-- The life cycle: every step of a run without stray commands follows it, and an
event that brings a stray command breaks it. -/
theorem lifecycle_followed {heartbeatExpiry : Nat} {sessions : SharedMemSessionsCache}
    {events : List BrokerEvent}
    (run : Run (step env) NoStrayCommand (new heartbeatExpiry sessions) events broker) :
    (∀ before event after, events = before ++ event :: after →
      ∃ earlier later, Run (step env) NoStrayCommand (new heartbeatExpiry sessions)
          before earlier ∧
        earlier.step env event = some later ∧ earlier.FollowsLifecycle env event later) ∧
      ∀ event next, broker.step env event = some next →
        (broker.FollowsLifecycle env event next ↔ broker.NoStrayCommand event) := by
  refine ⟨?_, fun event next stepped => followsLifecycle_iff stepped⟩
  rintro before event after rfl
  obtain ⟨earlier, later, shorter, admitted, stepped⟩ := run.split
  exact ⟨earlier, later, shorter, stepped, (followsLifecycle_iff stepped).mpr admitted⟩

/-- A worker comes and expires, and a stranger's heartbeat leaves no trace. -/
theorem lifecycle_followed_expiry :
    ∃ broker, Run (step (sampleEnv [])) NoStrayCommand sampleBroker
        [workerSends "w1" mdpwReady [] 0, workerSends "w2" mdpwHeartbeat [] 1,
          .timer 3000000000] broker ∧
      (!broker.workers.exists (text "w1") && !broker.workers.exists (text "w2")) = true ∧
      ∃ earlier later, Run (step (sampleEnv [])) NoStrayCommand sampleBroker
          [workerSends "w1" mdpwReady [] 0] earlier ∧
        earlier.step (sampleEnv []) (workerSends "w2" mdpwHeartbeat [] 1) = some later ∧
        earlier.FollowsLifecycle (sampleEnv []) (workerSends "w2" mdpwHeartbeat [] 1) later := by
  refine (Run.exists_of_exec (fun broker : MessageBroker =>
      !broker.workers.exists (text "w1") && !broker.workers.exists (text "w2"))
    (by decide +kernel)).imp fun broker ⟨run, gone⟩ => ⟨run, gone, ?_⟩
  exact (lifecycle_followed run).1 [workerSends "w1" mdpwReady [] 0] _ _ rfl

/-- A stranger with a command that has no branch is registered. -/
theorem strayCommand_registers :
    ∃ next, sampleBroker.step (sampleEnv []) (workerSends "w1" [6] [] 0) = some next ∧
      ¬ sampleBroker.FollowsLifecycle (sampleEnv []) (workerSends "w1" [6] [] 0) next := by
  have stays : (sampleBroker.step (sampleEnv []) (workerSends "w1" [6] [] 0)).any
      (fun next => next.workers.exists (text "w1")) = true := by decide +kernel
  cases stepped : sampleBroker.step (sampleEnv []) (workerSends "w1" [6] [] 0) with
  | none => simp [stepped] at stays
  | some next =>
      refine ⟨next, rfl, fun follows => ?_⟩
      have registered : next.workers.exists (text "w1") = true := by
        simpa [stepped] using stays
      have kept := ((follows.registered _).mp registered).1
      revert kept
      decide +kernel

end MessageBroker

end Cdcm.Frontend
