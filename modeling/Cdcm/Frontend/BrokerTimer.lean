import Cdcm.Frontend.BrokerRun

/-!
# The timer of the broker loop

The loop of `broker_loop` around the steps of the broker: the poll with its timeout,
the messages that it finds, and the heartbeat timer.  Time points and durations of the
system clock are counts of nanoseconds; `zmq::poll` takes milliseconds.
-/

namespace Cdcm.Frontend

open Json Protocol SessionsCache Zmq

/-- Seconds as `std::chrono::milliseconds`. -/
def millisecondsOfSeconds (seconds : Int) : Int := seconds * 1000

/-- Milliseconds as a duration of the system clock. -/
def clockDuration (milliseconds : Int) : Int := milliseconds * 1000000

/-- The variables of `broker_loop`, with the broker. -/
structure BrokerLoop where
  broker : MessageBroker
  now : Int
  heartbeatAt : Int

/-- What an iteration of the loop reads: the message on either socket, the readings
of the clock behind them, in `purge_workers` and behind the heartbeats, and what
other processes have made of the shared segment. -/
structure IterationInput where
  internal : Option (List ByteString × WorkerClock)
  external : Option (List ByteString × ClientInput)
  segment : Option SharedMemSessionsCache
  clock : Int
  purge : Int
  clockAfter : Int

/-- The events of an iteration before its timer. -/
def IterationInput.messages (input : IterationInput) : List BrokerEvent :=
  (input.segment.map .segment).toList ++
    (input.internal.map fun message => .worker message.1 message.2).toList ++
      (input.external.map fun message => .client message.1 message.2).toList

namespace BrokerLoop

/-- The loop in front of its first iteration. -/
def start (heartbeatInterval : Int) (broker : MessageBroker) (now : Int) : BrokerLoop :=
  ⟨broker, now, now + clockDuration (millisecondsOfSeconds heartbeatInterval)⟩

variable (loop : BrokerLoop)

/-- The timeout of `zmq::poll`. -/
def pollTimeout : Int :=
  let timeout := loop.heartbeatAt - loop.now
  -- `timeout.zero()` is a static function, and its value is dropped.
  let timeout := if timeout < 0 then timeout else timeout
  timeout

/-- One iteration. A negative timeout waits until there is a message. -/
def iterate (env : Environment) (heartbeatInterval : Int) (input : IterationInput) :
    Option BrokerLoop := do
  if loop.pollTimeout < 0 ∧ input.internal = none ∧ input.external = none then none
  let broker ← input.messages.foldlM (fun broker event => broker.step env event) loop.broker
  if input.clock ≥ loop.heartbeatAt then
    let broker ← broker.step env (.timer input.purge)
    return ⟨broker, input.clockAfter,
      loop.heartbeatAt + clockDuration (millisecondsOfSeconds heartbeatInterval)⟩
  else return ⟨broker, input.clock, loop.heartbeatAt⟩

/-- The loop at the poll of every iteration of a run. -/
def polls (env : Environment) (heartbeatInterval : Int) :
    BrokerLoop → List IterationInput → List BrokerLoop
  | loop, [] => [loop]
  | loop, input :: inputs =>
      loop :: match loop.iterate env heartbeatInterval input with
        | some next => polls env heartbeatInterval next inputs
        | none => []

/-! ## Polling in time -/

/-- The time left until the heartbeat; none is left once it is due. -/
def timeLeft : Int := max 0 (loop.heartbeatAt - loop.now)

/-- A duration in milliseconds, rounded up. -/
def ceilMilliseconds (duration : Int) : Int := -(-duration / 1000000)

/-- When the poll ends if no message comes, unless it waits for ever. -/
def pollEnd : Option Int :=
  if loop.pollTimeout < 0 then none else some (loop.now + clockDuration loop.pollTimeout)

/-- The poll waits for at most the time that is left, rounded up to a millisecond, so
that without a message the heartbeat is not late by a millisecond or more. -/
structure PollsInTime : Prop where
  nonneg : 0 ≤ loop.pollTimeout
  bounded : loop.pollTimeout ≤ ceilMilliseconds loop.timeLeft
  ends : ∃ time, loop.pollEnd = some time ∧ time < max loop.now loop.heartbeatAt + 1000000

variable {loop}

theorem pollTimeout_eq : loop.pollTimeout = loop.heartbeatAt - loop.now := by
  simp [pollTimeout]

theorem le_ceilMilliseconds {duration bound : Int} :
    bound ≤ ceilMilliseconds duration ↔ (bound - 1) * 1000000 < duration := by
  rw [ceilMilliseconds]
  omega

/-- The raw count is in time only where nothing is left, or a nanosecond. -/
theorem pollsInTime_iff :
    loop.PollsInTime ↔
      loop.heartbeatAt - loop.now = 0 ∨ loop.heartbeatAt - loop.now = 1 := by
  constructor
  · intro inTime
    have nonneg := inTime.nonneg
    have bounded := le_ceilMilliseconds.mp inTime.bounded
    rw [pollTimeout_eq] at nonneg bounded
    rw [timeLeft, max_eq_right nonneg] at bounded
    omega
  · intro left
    have nonneg : 0 ≤ loop.pollTimeout := by
      rw [pollTimeout_eq]
      omega
    have ends : loop.pollEnd = some (loop.now + clockDuration loop.pollTimeout) :=
      if_neg (not_lt.mpr nonneg)
    refine ⟨nonneg, ?_, _, ends, ?_⟩
    · apply le_ceilMilliseconds.mpr
      rw [timeLeft, pollTimeout_eq]
      omega
    · rw [clockDuration, pollTimeout_eq]
      omega

/-- The first poll is in time only with a heartbeat interval of zero. -/
theorem start_pollsInTime_iff {heartbeatInterval now : Int} {broker : MessageBroker} :
    (start heartbeatInterval broker now).PollsInTime ↔ heartbeatInterval = 0 := by
  rw [pollsInTime_iff]
  simp only [start, clockDuration, millisecondsOfSeconds]
  omega

/-- The polls of a run are in time exactly when at each of them the heartbeat is due
now or in a nanosecond. -/
theorem polls_in_time_iff (env : Environment) (heartbeatInterval now : Int)
    (broker : MessageBroker) (inputs : List IterationInput) :
    (∀ loop ∈ polls env heartbeatInterval (start heartbeatInterval broker now) inputs,
        loop.PollsInTime) ↔
      ∀ loop ∈ polls env heartbeatInterval (start heartbeatInterval broker now) inputs,
        loop.heartbeatAt - loop.now = 0 ∨ loop.heartbeatAt - loop.now = 1 :=
  forall₂_congr fun _ _ => pollsInTime_iff

/-- With the heartbeat interval of the settings file, the first poll waits a million
times too long. -/
theorem heartbeat_poll_late :
    ¬ ∀ loop ∈ polls (sampleEnv []) 3 (start 3 sampleBroker 0) [], loop.PollsInTime := by
  intro inTime
  have first := inTime _ (List.mem_singleton.mpr rfl)
  have zero := start_pollsInTime_iff.mp first
  contradiction

end BrokerLoop

end Cdcm.Frontend
