import Cdcm.Backend.Heartbeats
import Cdcm.Backend.Retries
import Cdcm.Backend.WorkerLiveness
import Cdcm.Frontend.FailureDetector
import Cdcm.Lib.Pulse
import Cdcm.System.Delivery

/-!
# A network that keeps time

The network with a clock.  Each message to the broker is stamped with the time at which it
was sent, so that limits can be set to how long it may be underway, and to how long a worker
may neither show nor look after its life.  The broker holds every worker for the heartbeat
expiry behind its last sign of life: it suspects no worker that is there, as long as the
limits leave room for the heartbeat interval.
-/

namespace Cdcm.System

open Json Protocol Zmq Backend Frontend SessionsCache Machine

/-- The broker takes a message of a worker for a sign of life. -/
def isSign (peer : ByteString) (wire : List ByteString) : Bool :=
  (workerCommand (peer :: wire)).any fun read => decide (read.command = mdpwReady ∨
    read.command = mdpwHeartbeat ∨ read.command = mdpwReply ∧ read.client ≠ [])

/-- A network at some time, with what is on its way to the broker and when it was sent, the
times at which the workers were last seen to be active, and the identities under which they
may have connected so far. -/
structure TimedNetwork where
  net : Network
  now : Int
  stamped : ByteString → List (List ByteString × Int)
  activeAt : ByteString → Int
  peers : List ByteString

/-- Something that has happened by some time. -/
structure TimedNetworkEvent where
  time : Int
  event : NetworkEvent

namespace TimedNetwork

/-- A broker without workers. -/
def new (heartbeatExpiry : Nat) (sessions : SharedMemSessionsCache) (start : Int) :
    TimedNetwork :=
  ⟨.new heartbeatExpiry sessions, start, fun _ => [], fun _ => start, []⟩

section Steps

variable (env : Environment) (workerEnv : WorkerEnvironment) (timed : TimedNetwork)

/-- A worker has come to the end of a turn of the loop of `recv`, where it looks whether it is
time for a heartbeat. -/
def endsTurn (next : Network) (peer : ByteString) : NetworkEvent → Bool
  | .process other (.poll _) => decide (other = peer) &&
      (next.processes peer).any fun process => process.phase.clock.isSome
  | _ => false

/-- The identities that an event may bring into use. -/
def brings : NetworkEvent → List ByteString
  | .start peer _ _ => [peer]
  | .process _ (.poll input) => [input.identity]
  | _ => []

/-- What a worker has sent to the broker. -/
def sentIn (next : Network) (peer : ByteString) : List (List ByteString) :=
  (next.toBroker peer).drop (timed.net.toBroker peer).length

/-- The broker receives a message of a worker. -/
def delivers (peer : ByteString) : NetworkEvent → Bool
  | .deliver other _ => decide (other = peer)
  | _ => false

/-- What is still on its way when the broker has received what it reacts to. -/
def waiting (peer : ByteString) (event : NetworkEvent) : List (List ByteString × Int) :=
  if delivers peer event then (timed.stamped peer).tail else timed.stamped peer

/-- The network has become another one. -/
def advance (event : TimedNetworkEvent) (next : Network) : TimedNetwork where
  net := next
  now := event.time
  stamped peer :=
    timed.waiting peer event.event ++ Pulse.stampAll event.time (timed.sentIn next peer)
  activeAt peer :=
    if endsTurn next peer event.event || (timed.sentIn next peer).any (isSign peer) then event.time
    else timed.activeAt peer
  peers := brings event.event ++ timed.peers

theorem stamped_advance (event : TimedNetworkEvent) (next : Network) (peer : ByteString) :
    (timed.advance event next).stamped peer =
      timed.waiting peer event.event ++ Pulse.stampAll event.time (timed.sentIn next peer) := rfl

theorem activeAt_advance (event : TimedNetworkEvent) (next : Network) (peer : ByteString) :
    (timed.advance event next).activeAt peer =
      if endsTurn next peer event.event || (timed.sentIn next peer).any (isSign peer) then
        event.time
      else timed.activeAt peer := rfl

/-- Take a step. -/
def step (event : TimedNetworkEvent) : Option TimedNetwork :=
  (timed.net.step env workerEnv event.event).map (timed.advance event)

end Steps

end TimedNetwork

/-! ## Limits -/

/-- How long a worker may be neither seen to send a sign of life nor at the end of a turn, and
how long a message to the broker may be underway. -/
structure Limits where
  turn : Int
  latency : Int

/-- The clocks are read between the last event and the end of this one; those of workers in
milliseconds. -/
def ReadsClock (before time : Int) : NetworkEvent → Prop
  | .start _ connect _ => nanoseconds connect ≤ time
  | .process _ (.poll input) => nanoseconds input.connect ≤ time ∧
      nanoseconds input.beat ≤ time ∧ time < nanoseconds (input.beat + 1)
  | .process _ (.retry _) | .process _ (.serve _) | .segment _ => True
  | .deliver _ clock => before ≤ clock.insert ∧ before ≤ clock.update ∧ clock.purge ≤ time
  | .client _ input => input.purge ≤ time
  | .timer now => now ≤ time

/-- A worker that connects does so under an identity that is not in use. -/
def TakesFresh (net : Network) : NetworkEvent → Prop
  | .start peer _ _ => net.Fresh peer
  | .process peer (.poll input) => ∀ process ∈ net.processes peer,
      process.Reconnects (.poll input) → net.Fresh input.identity
  | _ => True

/-- An event is in time: nothing has been underway for too long by then, and no worker has
been inactive for too long. -/
structure Punctual (limits : Limits) (timed : TimedNetwork) (event : TimedNetworkEvent) :
    Prop where
  later : timed.now ≤ event.time
  reads : ReadsClock timed.now event.time event.event
  fresh : TakesFresh timed.net event.event
  arrives : ∀ peer ∈ timed.peers, ∀ item ∈ timed.stamped peer,
    event.time ≤ item.2 + limits.latency
  turns : ∀ peer ∈ timed.peers, timed.net.connected peer = true →
    event.time ≤ timed.activeAt peer + limits.turn

instance (before time : Int) (event : NetworkEvent) : Decidable (ReadsClock before time event) :=
  match event with
  | .start _ connect _ => inferInstanceAs (Decidable (nanoseconds connect ≤ time))
  | .process _ (.poll _) => inferInstanceAs (Decidable (_ ∧ _ ∧ _))
  | .deliver _ _ => inferInstanceAs (Decidable (_ ∧ _ ∧ _))
  | .client _ input => inferInstanceAs (Decidable (input.purge ≤ time))
  | .timer now => inferInstanceAs (Decidable (now ≤ time))
  | .process _ (.retry _) | .process _ (.serve _) | .segment _ => inferInstanceAs (Decidable True)

instance (net : Network) (event : NetworkEvent) : Decidable (TakesFresh net event) :=
  match event with
  | .start peer _ _ => inferInstanceAs (Decidable (net.Fresh peer))
  | .process peer (.poll input) => inferInstanceAs (Decidable (∀ process ∈ net.processes peer,
      process.Reconnects (.poll input) → net.Fresh input.identity))
  | .process _ (.retry _) | .process _ (.serve _) | .deliver _ _ | .client _ _ | .timer _
  | .segment _ => inferInstanceAs (Decidable True)

instance (limits : Limits) (timed : TimedNetwork) (event : TimedNetworkEvent) :
    Decidable (Punctual limits timed event) :=
  decidable_of_iff (timed.now ≤ event.time ∧ ReadsClock timed.now event.time event.event ∧
      TakesFresh timed.net event.event ∧
      (∀ peer ∈ timed.peers, ∀ item ∈ timed.stamped peer, event.time ≤ item.2 + limits.latency) ∧
      ∀ peer ∈ timed.peers, timed.net.connected peer = true →
        event.time ≤ timed.activeAt peer + limits.turn)
    ⟨fun ⟨later, reads, fresh, arrives, turns⟩ => ⟨later, reads, fresh, arrives, turns⟩,
      fun punctual => ⟨punctual.later, punctual.reads, punctual.fresh, punctual.arrives,
        punctual.turns⟩⟩

end Cdcm.System
