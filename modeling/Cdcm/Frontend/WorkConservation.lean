import Cdcm.Frontend.BrokerRun
import Cdcm.Protocol.JsonText

/-!
# Work conservation

Between events, the broker should not hold a request while a worker is idle.
This is so as long as every message whose command `worker_process` does not
handle comes from a registered worker, or while no request is queued: such a
message leaves its sender registered and idle, and dispatches nothing.
-/

namespace Cdcm.Frontend

open Json Protocol SessionsCache Zmq WorkerContainer Machine

namespace MessageBroker

variable {env : Environment} {broker next : MessageBroker}

/-- No request waits while a worker is idle. -/
def WorkConserving (broker : MessageBroker) : Prop :=
  broker.requests = [] ∨
    ∀ identity worker, broker.workers.get identity = some worker → worker.idle = false

/-- A message with an unhandled command comes from a registered worker, or while
nothing is queued. -/
def NoStrayIdler (broker : MessageBroker) : BrokerEvent → Prop
  | .worker frames _ => ∀ read ∈ workerCommand frames,
      read.command ∈ handledCommands ∨ broker.workers.exists read.sender = true ∨
        broker.requests = []
  | _ => True

instance (broker : MessageBroker) (event : BrokerEvent) :
    Decidable (broker.NoStrayIdler event) :=
  match event with
  | .worker frames _ => inferInstanceAs (Decidable (∀ read ∈ workerCommand frames,
      read.command ∈ handledCommands ∨ broker.workers.exists read.sender = true ∨
        broker.requests = []))
  | .client .. | .timer _ | .segment _ => inferInstanceAs (Decidable True)

/-- A dispatch always leaves a work-conserving broker. -/
theorem workConserving_of_dispatch {now : Int} {call : DispatchCall}
    (dispatched : broker.serviceDispatch now call = some next) : next.WorkConserving := by
  have result := serviceDispatch_invariant (fun pending state => state.requests = pending)
    (fun _ _ _ _ _ _ turned => turned.requests) (fun _ => rfl) dispatched
  rcases result with ⟨_, busy⟩ | drained
  · exact .inr busy
  · exact .inl drained

/-- A command that does not make its worker wait for work leaves no new idle
worker, except for a stranger's command that is not handled. -/
theorem commanded_idle {expiryFrom : Int → Int} {clock : WorkerClock}
    {command client : ByteString} {ready : Bool} {current worker : Worker}
    (noWait : waits command client ready = false)
    (stays : commanded expiryFrom clock command client ready current = some worker) :
    worker.idle = current.idle ∧ (ready = true ∨ command ∉ handledCommands) := by
  rcases command_cases command with rfl | rfl | rfl | rfl | unhandled
  · cases ready with
    | true => contradiction
    | false => contradiction
  · cases ready with
    | false => contradiction
    | true =>
        have empty : client = [] := by simpa [waits] using noWait
        simp only [commanded_reply, empty, Bool.not_true, Bool.false_eq_true, if_false,
          if_true, Option.some.injEq] at stays
        exact ⟨stays ▸ rfl, .inl rfl⟩
  · cases ready with
    | false => contradiction
    | true =>
        simp only [commanded_heartbeat, if_true, Option.some.injEq] at stays
        exact ⟨stays ▸ rfl, .inl rfl⟩
  · contradiction
  · rw [commanded_unhandled unhandled, Option.some.injEq] at stays
    exact ⟨stays ▸ rfl, .inr unhandled⟩

/-- A worker message behind which nothing is dispatched conserves work exactly
when it makes no stranger an idle worker while requests are queued. -/
theorem workConserving_processed {clock : WorkerClock} {sender command client : ByteString}
    (conserving : broker.WorkConserving)
    (processed : WorkerProcessed broker clock sender command client next none) :
    next.WorkConserving ↔
      command ∈ handledCommands ∨ broker.workers.exists sender = true ∨
        broker.requests = [] := by
  have noWait : waits command client (broker.workers.get sender).isSome = false := by
    by_contra waiting
    have called := processed.call_eq
    rw [if_pos (Bool.eq_true_of_not_eq_false waiting)] at called
    contradiction
  rw [WorkConserving, processed.requests]
  constructor
  · rintro (empty | busy)
    · exact .inr (.inr empty)
    · by_contra stray
      obtain ⟨unhandled, stranger, _⟩ := not_or.mp stray |>.imp_right not_or.mp
      have absent : broker.workers.get sender = none :=
        exists_eq_false.mp (Bool.eq_false_of_not_eq_true stranger)
      have registered := processed.get sender
      rw [if_pos rfl, afterCommand, commanded_unhandled unhandled, absent] at registered
      have flag := busy sender _ registered
      contradiction
  · intro admitted
    by_cases empty : broker.requests = []
    · exact .inl empty
    · have busy : ∀ identity worker, broker.workers.get identity = some worker →
          worker.idle = false := conserving.resolve_left empty
      refine .inr fun identity worker found => ?_
      rw [processed.get] at found
      split at found
      next equal =>
        obtain ⟨sameFlag, known⟩ := commanded_idle noWait found
        cases stored : broker.workers.get sender with
        | some current =>
            rw [sameFlag, stored, Option.getD_some]
            exact busy sender current stored
        | none =>
            have stranger := exists_eq_false.mpr stored
            rw [stored] at known
            rcases known with ready | unhandled
            · contradiction
            · rcases admitted with handled | registered | queued
              · exact absurd handled unhandled
              · rw [stranger] at registered
                contradiction
              · exact absurd queued empty
      next => exact busy identity worker found

/-- From a work-conserving state, an event leads to one exactly when no stranger
becomes an idle worker while requests are queued. -/
theorem WorkConserving.step_iff {event : BrokerEvent} (conserving : broker.WorkConserving)
    (stepped : broker.step env event = some next) :
    next.WorkConserving ↔ broker.NoStrayIdler event := by
  obtain ⟨handled, call, isHandled, rest⟩ := step_cases stepped
  cases event with
  | worker frames clock =>
      cases parsed : workerCommand frames with
      | none =>
          obtain ⟨rfl, rfl⟩ := handle_worker_ignored parsed isHandled
          obtain rfl := step_eq_handle stepped isHandled
          simp [NoStrayIdler, parsed, conserving]
      | some command =>
          obtain ⟨sender, command, client⟩ := command
          have processed := handle_worker_command parsed isHandled
          have admits : broker.NoStrayIdler (.worker frames clock) ↔
              command ∈ handledCommands ∨ broker.workers.exists sender = true ∨
                broker.requests = [] := by
            simp [NoStrayIdler, parsed]
          rw [admits]
          rcases rest with ⟨rfl, rfl⟩ | ⟨made, rfl, dispatched⟩
          · exact workConserving_processed conserving processed
          · have waiting : waits command client (broker.workers.get sender).isSome = true := by
              by_contra still
              have called := processed.call_eq
              rw [if_neg still] at called
              contradiction
            refine iff_of_true (workConserving_of_dispatch dispatched) (.inl ?_)
            simp only [waits, Bool.or_eq_true, Bool.and_eq_true, decide_eq_true_eq] at waiting
            rcases waiting with ⟨isReady, _⟩ | ⟨⟨isReply, _⟩, _⟩
            · simp [handledCommands, isReady]
            · simp [handledCommands, isReply]
  | client frames input =>
      have processed := handle_client isHandled
      refine iff_of_true ?_ trivial
      rcases rest with ⟨rfl, rfl⟩ | ⟨made, rfl, dispatched⟩
      · rw [WorkConserving, processed.requests, processed.workers]
        exact conserving
      · exact workConserving_of_dispatch dispatched
  | timer now =>
      obtain ⟨rfl, sent, rfl, _⟩ := handle_timer isHandled
      obtain rfl := step_eq_handle stepped isHandled
      refine iff_of_true ?_ trivial
      refine conserving.imp_right fun busy identity worker found => ?_
      rw [get_purged] at found
      exact busy identity worker (Option.filter_eq_some_iff.mp found).1
  | segment sessions =>
      obtain ⟨rfl, rfl⟩ := Prod.mk.inj (Option.some.inj isHandled)
      obtain rfl := step_eq_handle stepped rfl
      exact iff_of_true conserving trivial

/-- Work conservation: along every run in which no stranger becomes an idle worker
while requests are queued, no request waits while a worker is idle; and any event
that breaks the condition breaks work conservation. -/
theorem work_conserved {heartbeatExpiry : Nat} {sessions : SharedMemSessionsCache}
    {events : List BrokerEvent}
    (run : Run (step env) NoStrayIdler (new heartbeatExpiry sessions) events broker) :
    broker.WorkConserving ∧ ∀ event next, broker.step env event = some next →
      (next.WorkConserving ↔ broker.NoStrayIdler event) := by
  have conserving : broker.WorkConserving :=
    run.invariant WorkConserving (.inl rfl)
      fun _ _ _ holds admitted stepped => (holds.step_iff stepped).mpr admitted
  exact ⟨conserving, fun _ _ stepped => conserving.step_iff stepped⟩

/-- A worker serves a client's request, and a second request goes the same way. -/
theorem work_conserved_ping :
    ∃ broker, Run (step (sampleEnv [sampleBody [pingAction "1"]])) NoStrayIdler sampleBroker
        [workerSends "w1" mdpwReady [] 0, clientSends "c1" (sampleBody [pingAction "1"]) 1,
          workerSends "w1" mdpwHeartbeat [] 2] broker ∧
      broker.workers.exists (text "w1") = true ∧ broker.WorkConserving := by
  refine (Run.exists_of_exec
    (fun broker : MessageBroker => broker.workers.exists (text "w1"))
    (by decide +kernel)).imp fun broker ⟨run, registered⟩ => ⟨run, registered, ?_⟩
  exact (work_conserved run).1

/-- A stranger's `REQUEST` registers it as an idle worker, but the request that
waits is not dispatched to it. -/
theorem strayIdler_breaks_conservation :
    ∃ broker, Run (step (sampleEnv [sampleBody [pingAction "1"]])) Unguarded sampleBroker
        [clientSends "c1" (sampleBody [pingAction "1"]) 0,
          workerSends "w1" mdpwRequest [] 1] broker ∧
      ¬ broker.WorkConserving := by
  refine (Run.exists_of_exec (fun broker : MessageBroker =>
      !broker.requests.isEmpty && (broker.workers.get (text "w1")).any Worker.idle)
    (by decide +kernel)).imp fun broker ⟨run, waiting⟩ => ⟨run, ?_⟩
  rw [Bool.and_eq_true, Bool.not_eq_true', List.isEmpty_eq_false_iff] at waiting
  rintro (empty | busy)
  · exact waiting.1 empty
  · cases found : broker.workers.get (text "w1") with
    | none => simp [found] at waiting
    | some worker =>
        have flag := busy _ worker found
        simp [found, flag] at waiting

end MessageBroker

end Cdcm.Frontend
