import Cdcm.System.Requests
import Cdcm.System.Suspicion

/-!
# Everything is answered once

In time, the broker drops no reply.  What may still lose an action are requests that a worker
cannot account for; without these, the replies that a client gets are to exactly what its
messages ask for.
-/

namespace Cdcm.System

open Json Protocol Zmq Backend Frontend SessionsCache Machine

/-- A worker can account for all actions of the request that it serves. -/
def Network.Accounts (workerEnv : WorkerEnvironment) (net : Network) : NetworkEvent → Prop
  | .process peer event => ∀ process ∈ net.processes peer, process.Accountable workerEnv event
  | _ => True

instance (workerEnv : WorkerEnvironment) (net : Network) (event : NetworkEvent) :
    Decidable (net.Accounts workerEnv event) :=
  match event with
  | .process peer event => inferInstanceAs (Decidable
      (∀ process ∈ net.processes peer, process.Accountable workerEnv event))
  | .start .. | .deliver .. | .client .. | .timer _ | .segment _ =>
      inferInstanceAs (Decidable True)

/-- A step in time, whose worker gives results to all that it is asked for. -/
structure Dependable (workerEnv : WorkerEnvironment) (limits : Limits) (timed : TimedNetwork)
    (event : TimedNetworkEvent) : Prop where
  punctual : Punctual limits timed event
  sets : timed.net.SetsResults workerEnv event.event
  accounts : timed.net.Accounts workerEnv event.event

instance (workerEnv : WorkerEnvironment) (limits : Limits) (timed : TimedNetwork)
    (event : TimedNetworkEvent) : Decidable (Dependable workerEnv limits timed event) :=
  decidable_of_iff (Punctual limits timed event ∧ timed.net.SetsResults workerEnv event.event ∧
      timed.net.Accounts workerEnv event.event)
    ⟨fun both => ⟨both.1, both.2.1, both.2.2⟩,
      fun dependable => ⟨dependable.punctual, dependable.sets, dependable.accounts⟩⟩

section Runs

variable {env : Environment} {workerEnv : WorkerEnvironment} {heartbeatExpiry : Nat}
  {limits : Limits} {timed : TimedNetwork} {sessions : SharedMemSessionsCache} {start : Int}
  {events : List TimedNetworkEvent}

/-- A step loses nothing where the broker knows the workers that it hears of. -/
theorem lossless_of_accounts {net : Network} {event : NetworkEvent}
    (accounts : net.Accounts workerEnv event) (knows : net.KnowsReplier event) :
    net.Lossless workerEnv event := by
  cases event with
  | process => exact accounts
  | start | deliver | client | timer | segment => exact knows

/-- Without its clock, a run in time is a run of the network that loses nothing. -/
theorem lossless_run (margin : Margin workerEnv heartbeatExpiry limits)
    (run : Run (TimedNetwork.step env workerEnv) (Dependable workerEnv limits)
      (.new heartbeatExpiry sessions start) events timed) :
    Run (Network.step env workerEnv)
      (fun net event => net.SetsResults workerEnv event ∧ net.Lossless workerEnv event)
      (.new heartbeatExpiry sessions) (events.map TimedNetworkEvent.event) timed.net := by
  refine run.project TimedNetwork.net TimedNetworkEvent.event ?_
  intro before state event next earlier dependable stepped
  obtain ⟨net, isStep, rfl⟩ := Option.map_eq_some_iff.mp stepped
  have all := allAttended_run margin (fun _ _ dependable => dependable.punctual) earlier
  exact ⟨⟨dependable.sets, lossless_of_accounts dependable.accounts (all.knowsReplier _)⟩, isStep⟩

end Runs

/-- Two actions of a client, which a worker serves at once. -/
def servedInTime : List TimedNetworkEvent :=
  (servedEvents fun _ => MessageWorker.succeeds).map (⟨0, ·⟩)

end Cdcm.System
