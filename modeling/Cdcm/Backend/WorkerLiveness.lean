import Cdcm.Backend.Accounting

/-!
# Liveness

How long a worker waits for its broker.  A run has a clock beside it: each step takes
some time, and the poll of `recv` ends without a message only when its timeout has
passed.  The timeout is the heartbeat interval, or the postpone duration while a
postponed action waits for a later time.
-/

namespace Cdcm.Backend

open Json Protocol Zmq Machine

/-- Milliseconds in nanoseconds. -/
def nanoseconds (milliseconds : Int) : Int := milliseconds * 1000000

/-- A worker, and the nanoseconds since it last had a message of the broker or
connected. -/
structure TimedWorker where
  worker : MessageWorker
  quiet : Int

/-- A step, the nanoseconds that it takes, and, for a poll, the `now` that `recv` has
read in front of it, in seconds. -/
structure TimedEvent where
  event : WorkerEvent
  elapsed : Nat
  now : Int

namespace MessageWorker

variable (env : WorkerEnvironment) (worker : MessageWorker)

/-- `timeout_ms` of `recv`. -/
def pollTimeout (now : Int) : Int :=
  match worker.postponedActions.top with
  | some top => if top.expirationTime > now then env.actionPostponeDur else env.heartbeatInterval
  | none => env.heartbeatInterval

/-- A poll of `recv` that ends without a message. -/
def TimesOut : WorkerEvent → Prop
  | .poll input => input.frames = none
  | _ => False

instance (event : WorkerEvent) : Decidable (TimesOut event) :=
  match event with
  | .poll input => inferInstanceAs (Decidable (input.frames = none))
  | .retry _ | .serve _ => inferInstanceAs (Decidable False)

/-- The decrement of `liveness_`, a 64-bit number. -/
def lessLively : Nat := (worker.liveness + (2 ^ 64 - 1)) % 2 ^ 64

/-- The branch of `recv` that connects because the liveness is exhausted. -/
def Exhausts (event : WorkerEvent) : Prop := TimesOut event ∧ worker.lessLively = 0

instance (event : WorkerEvent) : Decidable (worker.Exhausts event) :=
  inferInstanceAs (Decidable (_ ∧ _))

/-- A message of the broker, or the branch that connects. -/
def Renews : WorkerEvent → Prop
  | .poll input => input.frames ≠ none ∨ worker.lessLively = 0
  | _ => False

instance (event : WorkerEvent) : Decidable (worker.Renews event) :=
  match event with
  | .poll input => inferInstanceAs (Decidable (input.frames ≠ none ∨ _))
  | .retry _ | .serve _ => inferInstanceAs (Decidable False)

end MessageWorker

namespace TimedWorker

variable (env : WorkerEnvironment) (timed : TimedWorker)

/-- The poll is not over: a negative timeout never passes. -/
def StillWaits (event : TimedEvent) : Prop :=
  MessageWorker.TimesOut event.event ∧ (timed.worker.pollTimeout env event.now < 0 ∨
    event.elapsed < nanoseconds (timed.worker.pollTimeout env event.now))

instance (event : TimedEvent) : Decidable (timed.StillWaits env event) :=
  inferInstanceAs (Decidable (_ ∧ (_ ∨ _)))

/-- Take a step, and the time for it. -/
def step (event : TimedEvent) : Option TimedWorker :=
  if timed.StillWaits env event then none
  else do
    let worker ← timed.worker.step env event.event
    return ⟨worker, if timed.worker.Renews event.event then 0 else timed.quiet + event.elapsed⟩

/-- While the first postponed action is for later than the `now` of `recv`, a poll
that times out does not wait for less than the heartbeat interval. -/
def Steady (timed : TimedWorker) (event : TimedEvent) : Prop :=
  MessageWorker.TimesOut event.event → ∀ top ∈ timed.worker.postponedActions.top,
    event.now < top.expirationTime →
      env.heartbeatInterval ≤ env.actionPostponeDur ∨ env.actionPostponeDur < 0

instance (timed : TimedWorker) (event : TimedEvent) : Decidable (Steady env timed event) :=
  inferInstanceAs (Decidable (_ → ∀ _ ∈ _, _ → _))

end TimedWorker

namespace MessageWorker

variable {env : WorkerEnvironment} {worker next : MessageWorker}

/-! ## The liveness -/

theorem beat_liveness {input : PollInput} (beaten : worker.beat env input = some next) :
    next.liveness = worker.liveness := by
  obtain ⟨_, _, _, rfl⟩ := beat_spec beaten
  rfl

theorem reconnect_liveness {input : PollInput}
    (reconnected : (do
      let worker ← worker.connectToBroker env input.identity input.connect
      worker.beat env input) = some next) : next.liveness = env.heartbeatLiveness := by
  simp only [Option.bind_eq_bind, Option.bind_eq_some_iff] at reconnected
  obtain ⟨connected, isConnected, beaten⟩ := reconnected
  rw [beat_liveness beaten, connectToBroker_spec isConnected]

theorem obey_liveness {input : PollInput} {command : ByteString} {msg : Zmsg}
    (full : worker.liveness = env.heartbeatLiveness)
    (obeyed : worker.obey env input command msg = some next) :
    next.liveness = env.heartbeatLiveness := by
  rw [obey] at obeyed
  split at obeyed
  next =>
    obtain rfl := Option.some.inj obeyed
    exact full
  split at obeyed
  next => exact (beat_liveness obeyed).trans full
  split at obeyed
  next => exact reconnect_liveness obeyed
  next => exact (beat_liveness obeyed).trans full

theorem receive_liveness {input : PollInput} {frames : List ByteString}
    (received : worker.receive env input frames = some next) :
    next.liveness = env.heartbeatLiveness := by
  unfold receive at received
  dsimp only at received
  split at received
  next => contradiction
  split at received
  next => contradiction
  split at received
  next => contradiction
  next => exact obey_liveness rfl received

theorem retry_liveness {input : ActInput} {top : PostponedAction}
    (retried : worker.retry env input top = some next) : next.liveness = worker.liveness := by
  simp only [retry, Option.bind_eq_bind, Option.bind_eq_some_iff] at retried
  obtain ⟨found, -, retried⟩ := retried
  split at retried
  next =>
    obtain rfl := Option.some.inj retried
    rfl
  next =>
    split at retried
    next => contradiction
    next =>
      split at retried
      next =>
        obtain rfl := Option.some.inj retried
        rfl
      next =>
        simp only [Option.bind_eq_some_iff, Option.some.injEq] at retried
        obtain ⟨_, _, _, sent, rfl⟩ := retried
        rw [sendToBroker_spec sent]

theorem sendReply_liveness (sent : worker.sendReply = some next) :
    next.liveness = worker.liveness := by
  have spec := sendReply_spec sent
  split at spec
  next =>
    rw [spec.2]
  next =>
    rw [spec]
    split <;> rfl

theorem serve_liveness {input : ServeInput} {request : Zmsg}
    (served : worker.serve env input request = some next) : next.liveness = worker.liveness := by
  simp only [serve, Option.bind_eq_bind, Option.bind_eq_some_iff, Prod.exists, Option.pure_def,
    Option.some.injEq] at served
  obtain ⟨body, -, executed, hdr, answers, isExecuted, replied, sent, rfl⟩ := served
  obtain ⟨queue, rfl⟩ := execute_queue isExecuted
  have built : (buildReply env { worker with postponedActions := queue } hdr answers).liveness =
      worker.liveness := by
    rw [buildReply]
    split
    · split <;> rfl
    · rfl
  exact (sendReply_liveness sent).trans built

/-- A message and a connection renew the liveness, and a poll that times out takes one
of it. -/
theorem step_liveness {event : WorkerEvent} (stepped : worker.step env event = some next) :
    next.liveness =
      if worker.Renews event then env.heartbeatLiveness
      else if TimesOut event then worker.lessLively
      else worker.liveness := by
  rcases step_cases stepped with ⟨input, now, rfl, -, handled⟩ | ⟨input, rfl, -, polled⟩ |
    ⟨input, request, rfl, -, served⟩
  · have stays : next.liveness = worker.liveness := by
      cases handlePostponedAction_cases handled with
      | inl ends => rw [ends]
      | inr retries =>
          obtain ⟨top, -, retried⟩ := retries
          exact retry_liveness retried
    exact stays
  · cases frames : input.frames with
    | some message =>
        have renews : worker.Renews (.poll input) := .inl (by rw [frames]; simp)
        rw [if_pos renews]
        rw [poll, frames] at polled
        exact receive_liveness polled
    | none =>
        rw [poll, frames] at polled
        dsimp only [expire] at polled
        by_cases exhausted : worker.lessLively = 0
        · have renews : worker.Renews (.poll input) := .inr exhausted
          rw [if_pos renews]
          rw [lessLively] at exhausted
          rw [if_pos exhausted] at polled
          exact reconnect_liveness polled
        · have expires : ¬ worker.Renews (.poll input) := by
            intro renews
            cases renews with
            | inl message => exact message frames
            | inr zero => exact exhausted zero
          have timesOut : TimesOut (.poll input) := frames
          rw [if_neg expires, if_pos timesOut]
          rw [lessLively] at exhausted ⊢
          rw [if_neg exhausted] at polled
          generalize (worker.liveness + (2 ^ 64 - 1)) % 2 ^ 64 = liveness at polled ⊢
          exact beat_liveness polled
  · have stays : next.liveness = worker.liveness := serve_liveness served
    exact stays

end MessageWorker

namespace TimedWorker

open MessageWorker (sampleWorkerEnv requestFrom postpones)

variable {env : WorkerEnvironment} {timed next : TimedWorker}

/-! ## The time that has passed -/

/-- The liveness that was taken has been waited for. -/
structure Waited (env : WorkerEnvironment) (timed : TimedWorker) : Prop where
  positive : 1 ≤ timed.worker.liveness
  full : timed.worker.liveness ≤ env.heartbeatLiveness
  waited : (env.heartbeatLiveness - timed.worker.liveness) * nanoseconds env.heartbeatInterval ≤
    timed.quiet

/-- A worker that has just connected. -/
theorem Waited.connected {worker : MessageWorker} (positive : 1 ≤ env.heartbeatLiveness)
    (connected : worker.liveness = env.heartbeatLiveness) : Waited env ⟨worker, 0⟩ where
  positive := by rw [connected]; exact positive
  full := connected.le
  waited := by simp [connected]

/-- A steady poll that times out has waited for the heartbeat interval. -/
theorem Steady.interval_le {event : TimedEvent} (steady : Steady env timed event)
    (timesOut : MessageWorker.TimesOut event.event) (ended : ¬ timed.StillWaits env event) :
    nanoseconds env.heartbeatInterval ≤ event.elapsed := by
  have ends : 0 ≤ timed.worker.pollTimeout env event.now ∧
      nanoseconds (timed.worker.pollTimeout env event.now) ≤ event.elapsed := by
    constructor
    · by_contra negative
      exact ended ⟨timesOut, .inl (by omega)⟩
    · by_contra short
      exact ended ⟨timesOut, .inr (by omega)⟩
  have choice := steady timesOut
  revert ends
  rw [MessageWorker.pollTimeout]
  cases isTop : timed.worker.postponedActions.top with
  | none => exact fun ends => ends.2
  | some top =>
      dsimp only
      split
      next later =>
        intro ends
        have long := choice top isTop later
        simp only [nanoseconds] at ends ⊢
        omega
      next => exact fun ends => ends.2

theorem step_cases {event : TimedEvent} (stepped : timed.step env event = some next) :
    ¬ timed.StillWaits env event ∧ timed.worker.step env event.event = some next.worker ∧
      next.quiet = if timed.worker.Renews event.event then 0 else timed.quiet + event.elapsed := by
  rw [step] at stepped
  split at stepped
  next => contradiction
  next ended =>
    simp only [Option.bind_eq_bind, Option.bind_eq_some_iff, Option.pure_def,
      Option.some.injEq] at stepped
    obtain ⟨worker, isStep, rfl⟩ := stepped
    exact ⟨ended, isStep, rfl⟩

/-- The liveness is positive, so that its decrement is not one of 2^64. -/
theorem Waited.lessLively_eq (waited : Waited env timed)
    (small : env.heartbeatLiveness < 2 ^ 32) :
    timed.worker.lessLively = timed.worker.liveness - 1 := by
  have positive := waited.positive
  have full := waited.full
  rw [MessageWorker.lessLively]
  omega

/-- The time that has passed covers one more interval behind a steady timeout. -/
theorem Waited.timesOut (waited : Waited env timed) {event : TimedEvent}
    (steady : Steady env timed event) (timesOut : MessageWorker.TimesOut event.event)
    (ended : ¬ timed.StillWaits env event) :
    (env.heartbeatLiveness - (timed.worker.liveness - 1)) * nanoseconds env.heartbeatInterval ≤
      timed.quiet + event.elapsed := by
  have interval := steady.interval_le timesOut ended
  have before := waited.waited
  linarith

/-- A steady step keeps count of the time. -/
theorem Waited.step (waited : Waited env timed) (positive : 1 ≤ env.heartbeatLiveness)
    (small : env.heartbeatLiveness < 2 ^ 32) {event : TimedEvent}
    (steady : Steady env timed event) (stepped : timed.step env event = some next) :
    Waited env next := by
  obtain ⟨ended, isStep, quiet⟩ := step_cases stepped
  have liveness := MessageWorker.step_liveness isStep
  by_cases renews : timed.worker.Renews event.event
  · rw [if_pos renews] at liveness quiet
    refine ⟨by rw [liveness]; exact positive, liveness.le, ?_⟩
    simp [liveness, quiet]
  rw [if_neg renews] at liveness quiet
  by_cases timesOut : MessageWorker.TimesOut event.event
  · rw [if_pos timesOut, waited.lessLively_eq small] at liveness
    have notLast : timed.worker.liveness - 1 ≠ 0 := by
      intro last
      apply renews
      cases event with
      | mk step elapsed now =>
          cases step with
          | poll input => exact .inr ((waited.lessLively_eq small).trans last)
          | retry | serve => exact absurd timesOut (by simp [MessageWorker.TimesOut])
    have full := waited.full
    refine ⟨by omega, by omega, ?_⟩
    rw [liveness, quiet, Nat.cast_sub waited.positive]
    exact waited.timesOut steady timesOut ended
  · rw [if_neg timesOut] at liveness
    refine ⟨by rw [liveness]; exact waited.positive, by rw [liveness]; exact waited.full, ?_⟩
    have before := waited.waited
    rw [liveness, quiet]
    omega

/-- In every run of steady steps of a worker that has just connected, with anything in
its queue, the branch for an exhausted liveness is taken only when the heartbeat interval
has passed as often as the liveness counts, since the last message or connection. -/
theorem exhausted_after_heartbeats (positive : 1 ≤ env.heartbeatLiveness)
    (small : env.heartbeatLiveness < 2 ^ 32) {worker : MessageWorker}
    (connected : worker.liveness = env.heartbeatLiveness) {events : List TimedEvent}
    (run : Run (step env) (Steady env) ⟨worker, 0⟩ events timed) {event : TimedEvent}
    (steady : Steady env timed event) (stepped : timed.step env event = some next)
    (exhausts : timed.worker.Exhausts event.event) :
    env.heartbeatLiveness * nanoseconds env.heartbeatInterval ≤ timed.quiet + event.elapsed := by
  have waited : Waited env timed :=
    run.invariant (Waited env) (.connected positive connected)
      fun state event next waited steady stepped => waited.step positive small steady stepped
  obtain ⟨timesOut, last⟩ := exhausts
  have lively := waited.positive
  rw [waited.lessLively_eq small] at last
  have one : timed.worker.liveness = 1 := by omega
  have covered := waited.timesOut steady timesOut (step_cases stepped).1
  rw [one] at covered
  simpa using covered

/-! ## Sample runs -/

/-- The durations of the settings file. -/
def settingsEnv : WorkerEnvironment :=
  { sampleWorkerEnv [sampleBody [pingAction "1"]] with
    heartbeatInterval := 3000, actionPostponeDur := 500 }

/-- A poll that ends without a message after some milliseconds, and the clocks, in
milliseconds, in front of it and behind it. -/
def silence (milliseconds : Nat) (before after : Int) : TimedEvent :=
  ⟨.poll ⟨none, text "w2", after, after, after⟩, milliseconds * 1000000, toTimeT before⟩

/-- A step that takes no time. -/
def atOnce (event : WorkerEvent) : TimedEvent := ⟨event, 0, 0⟩

/-- A call that is to be repeated, at some time. -/
def postponesAt (now : Int) : ActInput := ⟨.returns .postponed ⟨none, [], none⟩ none, now⟩

/-- A worker without a request waits for its broker. -/
def silentEvents : List TimedEvent :=
  [atOnce (.retry postpones), silence 3000 0 3000, atOnce (.retry postpones),
    silence 3000 3000 6000, atOnce (.retry postpones)]

/-- The three intervals have passed when it connects anew. -/
theorem silent_worker_waits :
    ∃ first timed next, MessageWorker.start settingsEnv (text "w1") 0 0 = some first ∧
      Run (step settingsEnv) (Steady settingsEnv) ⟨first, 0⟩ silentEvents timed ∧
      timed.step settingsEnv (silence 3000 6000 9000) = some next ∧
      (3 : Int) * nanoseconds 3000 ≤ timed.quiet + 3000 * 1000000 := by
  have executes : ((MessageWorker.start settingsEnv (text "w1") 0 0).bind fun first =>
      exec (step settingsEnv) (Steady settingsEnv) ⟨first, 0⟩ silentEvents).any (fun timed =>
        Steady settingsEnv timed (silence 3000 6000 9000) ∧
          timed.worker.Exhausts (silence 3000 6000 9000).event ∧
          (timed.step settingsEnv (silence 3000 6000 9000)).isSome) = true := by
    decide +kernel
  obtain ⟨timed, executed, last⟩ := (Option.any_eq_true _ _).mp executes
  obtain ⟨first, started, executed⟩ := Option.bind_eq_some_iff.mp executed
  obtain ⟨steady, exhausts, continues⟩ := of_decide_eq_true last
  obtain ⟨next, stepped⟩ := Option.isSome_iff_exists.mp continues
  have run := Run.of_exec executed
  have connected : first.liveness = settingsEnv.heartbeatLiveness := by
    obtain ⟨_, _, rfl⟩ := MessageWorker.start_spec started
    rfl
  exact ⟨first, timed, next, started, run, stepped,
    exhausted_after_heartbeats (by decide) (by decide) connected run steady stepped exhausts⟩

/-- A worker postpones an action, which is to be repeated each time. -/
def postponingEvents : List TimedEvent :=
  [atOnce (.retry postpones),
    atOnce (requestFrom "c" (sampleBody [pingAction "1"]) 600),
    atOnce (.serve ⟨fun _ => postponesAt 600, 600⟩), atOnce (.retry postpones),
    silence 500 600 1100, atOnce (.retry (postponesAt 1100)), atOnce (.retry postpones),
    silence 500 1100 1600, atOnce (.retry postpones)]

/-- Its liveness is exhausted after a second and a half, not after nine seconds. -/
theorem postponing_worker_reconnects_early :
    ∃ first timed next, MessageWorker.start settingsEnv (text "w1") 0 0 = some first ∧
      first.liveness = settingsEnv.heartbeatLiveness ∧
      Run (step settingsEnv) Unguarded ⟨first, 0⟩ postponingEvents timed ∧
      timed.step settingsEnv (silence 500 1600 2100) = some next ∧
      timed.worker.Exhausts (silence 500 1600 2100).event ∧
      ¬ settingsEnv.heartbeatLiveness * nanoseconds settingsEnv.heartbeatInterval ≤
        timed.quiet + (silence 500 1600 2100).elapsed := by
  have executes : ((MessageWorker.start settingsEnv (text "w1") 0 0).bind fun first =>
      exec (step settingsEnv) Unguarded ⟨first, 0⟩ postponingEvents).any (fun timed =>
        timed.worker.Exhausts (silence 500 1600 2100).event ∧
          (timed.step settingsEnv (silence 500 1600 2100)).isSome ∧
          timed.quiet = 1000 * 1000000) = true := by
    decide +kernel
  obtain ⟨timed, executed, last⟩ := (Option.any_eq_true _ _).mp executes
  obtain ⟨first, started, executed⟩ := Option.bind_eq_some_iff.mp executed
  obtain ⟨exhausts, continues, quiet⟩ := of_decide_eq_true last
  obtain ⟨next, stepped⟩ := Option.isSome_iff_exists.mp continues
  have connected : first.liveness = settingsEnv.heartbeatLiveness := by
    obtain ⟨_, _, rfl⟩ := MessageWorker.start_spec started
    rfl
  refine ⟨first, timed, next, started, connected, .of_exec executed, stepped, exhausts, ?_⟩
  rw [quiet]
  decide

end TimedWorker

end Cdcm.Backend
