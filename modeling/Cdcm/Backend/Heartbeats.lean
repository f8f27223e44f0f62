import Cdcm.Backend.Accounting

/-!
# The heartbeats of a worker

When a worker lets its broker know that it lives: by a `READY` when it connects, and at
the end of each turn of the loop of `recv` by a `HEARTBEAT`, if it is time.  The time of
the next one moves on by the heartbeat interval, whatever the clock reads, so that
heartbeats which were missed while an action was executed are made up for.
-/

namespace Cdcm.Backend

open Json Protocol Zmq Machine

namespace MessageWorker

/-- A command of the worker to its broker, among messages that it sends. -/
def tells (command : ByteString) (sent : List Sent) : Bool :=
  sent.any fun entry => decide (entry.msg = brokerMessage command [] none)

/-- The count of heartbeats since the last connection, behind a message. -/
def countHeartbeats (count : Nat) (entry : Sent) : Nat :=
  if entry.msg = brokerMessage mdpwReady [] none then 0
  else if entry.msg = brokerMessage mdpwHeartbeat [] none then count + 1
  else count

/-- The heartbeats that the worker has sent since it connected. -/
def heartbeats (worker : MessageWorker) : Nat := worker.journal.foldl countHeartbeats 0

end MessageWorker

/-- A worker with some readings of its clock: that with which it last connected, the one
behind the last `READY` or `HEARTBEAT`, and that at the end of the last turn of the loop
of `recv`. -/
structure PacedWorker where
  worker : MessageWorker
  connectedAt : Int
  signAt : Int
  turnAt : Int

namespace PacedWorker

variable (env : WorkerEnvironment)

/-- Take a step, and note the readings of the clock. -/
def step (paced : PacedWorker) (event : WorkerEvent) : Option PacedWorker := do
  let worker ← paced.worker.step env event
  let sent := worker.journal.drop paced.worker.journal.length
  match event with
  | .poll input =>
      let connects := MessageWorker.tells mdpwReady sent
      return {
        worker := worker
        connectedAt := if connects then input.connect else paced.connectedAt
        signAt :=
          if MessageWorker.tells mdpwHeartbeat sent then input.beat
          else if connects then input.connect
          else paced.signAt
        turnAt :=
          match worker.phase with
          | .handling _ => input.beat
          | _ => paced.turnAt }
  | _ => return { paced with worker := worker }

/-- A worker in front of its first message. -/
def start (identity : ByteString) (connect handle : Int) : Option PacedWorker := do
  let worker ← MessageWorker.start env identity connect handle
  return ⟨worker, connect, connect, connect⟩

end PacedWorker

namespace MessageWorker

variable {env : WorkerEnvironment} {worker next : MessageWorker}

/-! ## What moves the schedule -/

/-- A step that sends replies at most leaves the schedule of the heartbeats. -/
structure KeepsSchedule (worker next : MessageWorker) : Prop where
  heartbeatAt : next.heartbeatAt = worker.heartbeatAt
  identity : next.identity = worker.identity
  replies : ∃ sent, next.journal = worker.journal ++ sent ∧ ∀ entry ∈ sent,
    entry.identity = worker.identity ∧ ∃ msg, entry.msg = brokerMessage mdpwReply [] (some msg)

theorem KeepsSchedule.of_journal (heartbeatAt : next.heartbeatAt = worker.heartbeatAt)
    (identity : next.identity = worker.identity) (journal : next.journal = worker.journal) :
    KeepsSchedule worker next :=
  ⟨heartbeatAt, identity, [], by rw [journal, List.append_nil], by simp⟩

theorem brokerMessage_eq (command : ByteString) (msg : Option Zmsg) :
    brokerMessage command [] msg =
      ⟨[] :: mdpwWorker :: cStr command :: (msg.getD .empty).partData⟩ := by
  have version : cStr mdpwWorker = mdpwWorker := by decide
  simp [brokerMessage, Zmsg.pushFront, version]

/-- The command of a message to the broker can be told from it. -/
theorem brokerMessage_ne {command other : ByteString} (differs : cStr command ≠ cStr other)
    (msg otherMsg : Option Zmsg) :
    brokerMessage command [] msg ≠ brokerMessage other [] otherMsg := by
  rw [brokerMessage_eq, brokerMessage_eq]
  intro same
  simp only [Zmsg.mk.injEq, List.cons.injEq, true_and] at same
  exact differs same.1

theorem brokerMessage_bare_inj {command other : ByteString} :
    brokerMessage command [] none = brokerMessage other [] none ↔ cStr command = cStr other := by
  rw [brokerMessage_eq, brokerMessage_eq]
  simp

@[simp] theorem tells_nil (command : ByteString) : tells command [] = false := rfl

/-- A message without results tells the command that it has. -/
@[simp] theorem tells_bare (command identity other : ByteString) (sent : List Sent) :
    tells command (bare identity other :: sent) =
      (decide (cStr other = cStr command) || tells command sent) := by
  simp only [tells, List.any_cons, bare, brokerMessage_bare_inj]

@[simp] theorem countHeartbeats_ready (count : Nat) (identity : ByteString) :
    countHeartbeats count (bare identity mdpwReady) = 0 := by
  rw [countHeartbeats, bare, if_pos rfl]

@[simp] theorem countHeartbeats_heartbeat (count : Nat) (identity : ByteString) :
    countHeartbeats count (bare identity mdpwHeartbeat) = count + 1 := by
  have differs : cStr mdpwHeartbeat ≠ cStr mdpwReady := by decide
  rw [countHeartbeats, bare, if_neg (brokerMessage_ne differs _ _), if_pos rfl]

/-- The end of a turn tells of a heartbeat when it is time, and of no connection. -/
theorem tells_beat (isTime : Prop) [Decidable isTime] (identity : ByteString) :
    tells mdpwHeartbeat (if isTime then [bare identity mdpwHeartbeat] else []) = decide isTime ∧
      tells mdpwReady (if isTime then [bare identity mdpwHeartbeat] else []) = false := by
  have differs : cStr mdpwHeartbeat ≠ cStr mdpwReady := by decide
  split
  next yes => simp [yes, differs]
  next no => simp [no]

theorem countHeartbeats_reply {entry : Sent} {msg : Zmsg}
    (reply : entry.msg = brokerMessage mdpwReply [] (some msg)) (count : Nat) :
    countHeartbeats count entry = count := by
  rw [countHeartbeats, reply, if_neg (brokerMessage_ne (by decide) _ _),
    if_neg (brokerMessage_ne (by decide) _ _)]

theorem KeepsSchedule.heartbeats (keeps : KeepsSchedule worker next) :
    next.heartbeats = worker.heartbeats := by
  obtain ⟨_, _, sent, journal, replies⟩ := keeps
  rw [MessageWorker.heartbeats, journal, List.foldl_append, ← MessageWorker.heartbeats]
  generalize worker.heartbeats = count
  clear journal
  induction sent with
  | nil => rfl
  | cons entry sent ih =>
      obtain ⟨⟨_, msg, reply⟩, others⟩ := List.forall_mem_cons.mp replies
      rw [List.foldl_cons, countHeartbeats_reply reply, ih others]

theorem retry_keepsSchedule {input : ActInput} {top : PostponedAction}
    (retried : worker.retry env input top = some next) : KeepsSchedule worker next := by
  simp only [retry, Option.bind_eq_bind, Option.bind_eq_some_iff] at retried
  obtain ⟨found, -, retried⟩ := retried
  split at retried
  next =>
    obtain rfl := Option.some.inj retried
    exact .of_journal rfl rfl rfl
  next =>
    split at retried
    next => contradiction
    next =>
      split at retried
      next =>
        obtain rfl := Option.some.inj retried
        exact .of_journal rfl rfl rfl
      next =>
        simp only [Option.bind_eq_some_iff, Option.some.injEq] at retried
        obtain ⟨_, _, _, sent, rfl⟩ := retried
        rw [sendToBroker_spec sent]
        refine ⟨rfl, rfl, [_], rfl, fun entry member => ?_⟩
        rw [List.mem_singleton.mp member]
        exact ⟨rfl, _, rfl⟩

theorem serve_keepsSchedule {input : ServeInput} {request : Zmsg}
    (served : worker.serve env input request = some next) : KeepsSchedule worker next := by
  simp only [serve, Option.bind_eq_bind, Option.bind_eq_some_iff, Prod.exists, Option.pure_def,
    Option.some.injEq] at served
  obtain ⟨body, -, executed, hdr, answers, isExecuted, replied, sent, rfl⟩ := served
  obtain ⟨queue, rfl⟩ := execute_queue isExecuted
  have built : KeepsSchedule worker
      (buildReply env { worker with postponedActions := queue } hdr answers) := by
    rw [buildReply]
    split
    · split <;> exact .of_journal rfl rfl rfl
    · exact .of_journal rfl rfl rfl
  generalize buildReply env { worker with postponedActions := queue } hdr answers = ready
    at built sent
  have spec := sendReply_spec sent
  split at spec
  next =>
    obtain ⟨_, rfl⟩ := spec
    exact ⟨built.heartbeatAt, built.identity, built.replies⟩
  next =>
    subst spec
    split
    next => exact ⟨built.heartbeatAt, built.identity, built.replies⟩
    next =>
      obtain ⟨earlier, journal, replies⟩ := built.replies
      refine ⟨built.heartbeatAt, built.identity, earlier ++ [_],
        by rw [← List.append_assoc, ← journal], ?_⟩
      intro entry member
      rcases List.mem_append.mp member with old | new
      · exact replies entry old
      · rw [List.mem_singleton.mp new]
        exact ⟨built.identity, _, rfl⟩

/-- The end of a turn of the loop sends the heartbeat that is due, and no other. -/
theorem beat_cases {input : PollInput} (beaten : worker.beat env input = some next) :
    worker.heartbeatAt ≤ input.beat ∧ next = { worker with
        heartbeatAt := worker.heartbeatAt + env.heartbeatInterval
        phase := .handling (toTimeT input.handle)
        journal := worker.journal ++ [bare worker.identity mdpwHeartbeat] } ∨
      input.beat < worker.heartbeatAt ∧ next = { worker with
        phase := .handling (toTimeT input.handle) } := by
  rw [beat] at beaten
  by_cases isTime : input.beat ≥ worker.heartbeatAt
  · simp only [if_pos isTime, Option.bind_eq_bind, Option.bind_eq_some_iff, Option.pure_def,
      Option.some.injEq] at beaten
    obtain ⟨_, sent, _, rfl, rfl⟩ := beaten
    rw [sendToBroker_spec sent]
    exact .inl ⟨isTime, rfl⟩
  · simp only [if_neg isTime, Option.bind_eq_bind, Option.bind_some, Option.pure_def,
      Option.some.injEq] at beaten
    exact .inr ⟨by omega, beaten.symm⟩

/-- What it sends. -/
theorem beat_sent {input : PollInput} (beaten : worker.beat env input = some next) :
    (∃ now, next.phase = .handling now) ∧ next.journal = worker.journal ++
      if worker.heartbeatAt ≤ input.beat then [bare worker.identity mdpwHeartbeat] else [] := by
  rcases beat_cases beaten with ⟨isTime, rfl⟩ | ⟨early, rfl⟩
  · rw [if_pos isTime]
    exact ⟨⟨_, rfl⟩, rfl⟩
  · rw [if_neg (by omega), List.append_nil]
    exact ⟨⟨_, rfl⟩, rfl⟩

/-- The first heartbeat is for one interval behind the connection. -/
theorem start_heartbeatAt {identity : ByteString} {connect handle : Int}
    (started : start env identity connect handle = some worker) :
    worker.heartbeatAt = connect + env.heartbeatInterval := by
  simp only [start, Option.bind_eq_bind, Option.bind_eq_some_iff] at started
  obtain ⟨connected, isConnected, sent⟩ := started
  obtain rfl := connectToBroker_spec isConnected
  obtain ⟨_, rfl⟩ := sendReply_spec sent
  rfl

/-- A poll takes a request to serve, or it ends the turn, behind a new connection or
not. -/
inductive Turned (env : WorkerEnvironment) (worker : MessageWorker) (input : PollInput)
    (next : MessageWorker) : Prop where
  | request (request : Zmsg) (phase : next.phase = .serving request)
      (heartbeatAt : next.heartbeatAt = worker.heartbeatAt)
      (identity : next.identity = worker.identity) (journal : next.journal = worker.journal)
  | stays (liveness : Nat)
      (beaten : beat env { worker with liveness := liveness } input = some next)
  | reconnects (connected : MessageWorker)
      (heartbeatAt : connected.heartbeatAt = input.connect + env.heartbeatInterval)
      (journal : connected.journal = worker.journal ++ [bare input.identity mdpwReady])
      (identity : connected.identity = input.identity)
      (beaten : connected.beat env input = some next)

theorem Turned.of_reconnect {input : PollInput} {liveness : Nat}
    (reconnected : (do
      let worker ← connectToBroker env { worker with liveness := liveness } input.identity
        input.connect
      worker.beat env input) = some next) : Turned env worker input next := by
  simp only [Option.bind_eq_bind, Option.bind_eq_some_iff] at reconnected
  obtain ⟨connected, isConnected, beaten⟩ := reconnected
  obtain rfl := connectToBroker_spec isConnected
  exact .reconnects _ rfl rfl rfl beaten

theorem obey_turned {input : PollInput} {liveness : Nat} {command : ByteString} {msg : Zmsg}
    (obeyed : obey env { worker with liveness := liveness } input command msg = some next) :
    Turned env worker input next := by
  rw [obey] at obeyed
  split at obeyed
  next =>
    obtain rfl := Option.some.inj obeyed
    exact .request _ rfl rfl rfl rfl
  split at obeyed
  next => exact .stays _ obeyed
  split at obeyed
  next => exact .of_reconnect obeyed
  next => exact .stays _ obeyed

theorem poll_turned {input : PollInput} (polled : worker.poll env input = some next) :
    Turned env worker input next := by
  rw [poll] at polled
  split at polled
  next frames _ =>
    unfold receive at polled
    dsimp only at polled
    split at polled
    next => contradiction
    split at polled
    next => contradiction
    split at polled
    next => contradiction
    next => exact obey_turned polled
  next =>
    dsimp only [expire] at polled
    split at polled
    next => exact .of_reconnect polled
    next => exact .stays _ polled

end MessageWorker

namespace PacedWorker

open MessageWorker (requestFrom brokerSends succeeds postpones)

variable {env : WorkerEnvironment} {paced next : PacedWorker}

/-- The next heartbeat is for the end of the interval behind the earlier ones, which none
of them has come in front of, and no turn has ended without one when it was time. -/
structure OnSchedule (env : WorkerEnvironment) (paced : PacedWorker) : Prop where
  scheduled : paced.worker.heartbeatAt =
    paced.connectedAt + (paced.worker.heartbeats + 1) * env.heartbeatInterval
  spread : paced.worker.heartbeats * env.heartbeatInterval ≤ paced.signAt - paced.connectedAt
  prompt : paced.turnAt ≤ paced.signAt + env.heartbeatInterval

/-- The end of a turn keeps to the schedule of the connection that it ends on. -/
theorem onSchedule_beat {worker next : MessageWorker} {connectedAt signAt : Int}
    {input : PollInput} (nonneg : 0 ≤ env.heartbeatInterval)
    (scheduled : worker.heartbeatAt =
      connectedAt + (worker.heartbeats + 1) * env.heartbeatInterval)
    (spread : worker.heartbeats * env.heartbeatInterval ≤ signAt - connectedAt)
    (beaten : worker.beat env input = some next) :
    OnSchedule env ⟨next, connectedAt,
      if worker.heartbeatAt ≤ input.beat then input.beat else signAt, input.beat⟩ := by
  rcases MessageWorker.beat_cases beaten with ⟨isTime, rfl⟩ | ⟨early, rfl⟩
  · have count : MessageWorker.heartbeats { worker with
          heartbeatAt := worker.heartbeatAt + env.heartbeatInterval
          phase := .handling (toTimeT input.handle)
          journal := worker.journal ++
            [MessageWorker.bare worker.identity mdpwHeartbeat] } = worker.heartbeats + 1 := by
      rw [MessageWorker.heartbeats, List.foldl_concat, ← MessageWorker.heartbeats,
        MessageWorker.countHeartbeats_heartbeat]
    rw [if_pos isTime]
    refine ⟨?_, ?_, ?_⟩
    · rw [count]
      dsimp only
      rw [scheduled]
      push_cast
      ring
    · rw [count]
      dsimp only
      rw [scheduled] at isTime
      push_cast
      linarith
    · exact le_add_of_nonneg_right nonneg
  · rw [if_neg (by omega)]
    refine ⟨scheduled, spread, ?_⟩
    rw [scheduled] at early
    dsimp only
    linarith

theorem OnSchedule.step (nonneg : 0 ≤ env.heartbeatInterval) (onSchedule : OnSchedule env paced)
    {event : WorkerEvent} (stepped : paced.step env event = some next) :
    OnSchedule env next := by
  simp only [PacedWorker.step, Option.bind_eq_bind, Option.bind_eq_some_iff] at stepped
  obtain ⟨worker, isStep, noted⟩ := stepped
  have replies : MessageWorker.KeepsSchedule paced.worker worker →
      OnSchedule env { paced with worker := worker } := by
    intro keeps
    refine ⟨?_, ?_, onSchedule.prompt⟩
    · rw [keeps.heartbeatAt, keeps.heartbeats]
      exact onSchedule.scheduled
    · rw [keeps.heartbeats]
      exact onSchedule.spread
  rcases MessageWorker.step_cases isStep with ⟨input, now, rfl, -, handled⟩ |
    ⟨input, rfl, -, polled⟩ | ⟨input, request, rfl, -, served⟩
  · obtain rfl := Option.some.inj noted
    refine replies ?_
    rcases MessageWorker.handlePostponedAction_cases handled with rfl | ⟨top, -, retried⟩
    · exact .of_journal rfl rfl rfl
    · exact MessageWorker.retry_keepsSchedule retried
  · obtain rfl := Option.some.inj noted
    cases MessageWorker.poll_turned polled with
    | request request phase heartbeatAt identity journal =>
        simp only [journal, List.drop_length, MessageWorker.tells_nil, phase,
          Bool.false_eq_true, if_false]
        exact replies (.of_journal heartbeatAt identity journal)
    | stays liveness beaten =>
        obtain ⟨⟨now, phase⟩, journal⟩ := MessageWorker.beat_sent beaten
        have ends := @onSchedule_beat env { paced.worker with liveness := liveness } worker
          paced.connectedAt paced.signAt input nonneg onSchedule.scheduled onSchedule.spread beaten
        dsimp only at journal ends
        obtain ⟨beats, noReady⟩ := MessageWorker.tells_beat
          (paced.worker.heartbeatAt ≤ input.beat) paced.worker.identity
        simp only [journal, List.drop_left, phase, beats, noReady, Bool.false_eq_true, if_false,
          decide_eq_true_eq]
        exact ends
    | reconnects connected heartbeatAt journal identity beaten =>
        obtain ⟨⟨now, phase⟩, later⟩ := MessageWorker.beat_sent beaten
        have none : connected.heartbeats = 0 := by
          rw [MessageWorker.heartbeats, journal, List.foldl_concat,
            MessageWorker.countHeartbeats_ready]
        have ends := @onSchedule_beat env connected worker input.connect input.connect input
          nonneg (by rw [heartbeatAt, none]; push_cast; ring) (by rw [none]; simp) beaten
        rw [journal, List.append_assoc] at later
        obtain ⟨beats, noReady⟩ := MessageWorker.tells_beat
          (connected.heartbeatAt ≤ input.beat) connected.identity
        have differs : cStr mdpwReady ≠ cStr mdpwHeartbeat := by decide
        simp only [later, List.drop_left, phase, List.singleton_append, MessageWorker.tells_bare,
          beats, noReady, differs, decide_true, decide_false, Bool.or_false, Bool.false_or,
          decide_eq_true_eq, if_true]
        exact ends
  · obtain rfl := Option.some.inj noted
    exact replies (MessageWorker.serve_keepsSchedule served)

theorem onSchedule_start (nonneg : 0 ≤ env.heartbeatInterval) {identity : ByteString}
    {connect handle : Int} (started : start env identity connect handle = some paced) :
    OnSchedule env paced := by
  simp only [start, MessageWorker.start, Option.bind_eq_bind, Option.bind_eq_some_iff,
    Option.pure_def, Option.some.injEq] at started
  obtain ⟨worker, ⟨connected, isConnected, sent⟩, rfl⟩ := started
  obtain rfl := MessageWorker.connectToBroker_spec isConnected
  obtain ⟨_, rfl⟩ := MessageWorker.sendReply_spec sent
  exact ⟨by simp [MessageWorker.heartbeats], by simp [MessageWorker.heartbeats],
    le_add_of_nonneg_right nonneg⟩

/-- Heartbeats neither pile up nor fail to come: in every run of a worker, as many
intervals have passed between its last connection and its last sign of life as it has
sent heartbeats in between, and at the end of every turn of the loop of `recv` its last
sign of life is not older than one interval. -/
theorem heartbeats_on_schedule (nonneg : 0 ≤ env.heartbeatInterval) {identity : ByteString}
    {connect handle : Int} {first : PacedWorker}
    (started : start env identity connect handle = some first) {events : List WorkerEvent}
    (run : Run (step env) Unguarded first events paced) :
    paced.worker.heartbeats * env.heartbeatInterval ≤ paced.signAt - paced.connectedAt ∧
      paced.turnAt ≤ paced.signAt + env.heartbeatInterval := by
  have onSchedule := run.invariant (OnSchedule env) (onSchedule_start nonneg started)
    fun _ _ _ onSchedule _ stepped => onSchedule.step nonneg stepped
  exact ⟨onSchedule.spread, onSchedule.prompt⟩

/-- A worker that serves a request for seven seconds, and then hears of its broker three
times at once. -/
def lateEvents : List WorkerEvent :=
  [.retry postpones, requestFrom "c" (sampleBody [pingAction "1", pingAction "2"]) 0,
    .serve ⟨fun _ => succeeds, 7000⟩, .retry postpones,
    brokerSends mdpwHeartbeat [] 7000, .retry postpones,
    brokerSends mdpwHeartbeat [] 7001, .retry postpones,
    brokerSends mdpwHeartbeat [] 7002]

/-- It makes up for the three heartbeats that it has missed. -/
theorem heartbeats_on_schedule_late :
    ∃ first paced, start MessageWorker.pairEnv (text "w1") 0 0 = some first ∧
      Run (step MessageWorker.pairEnv) Unguarded first lateEvents paced ∧
      paced.worker.heartbeats = 3 ∧ (3 : Int) * 2000 ≤ paced.signAt - paced.connectedAt := by
  have executes : ((start MessageWorker.pairEnv (text "w1") 0 0).bind fun first =>
      exec (step MessageWorker.pairEnv) Unguarded first lateEvents).any (fun paced =>
        decide (paced.worker.heartbeats = 3)) = true := by
    decide +kernel
  obtain ⟨paced, executed, counted⟩ := (Option.any_eq_true _ _).mp executes
  obtain ⟨first, started, executed⟩ := Option.bind_eq_some_iff.mp executed
  have run := Run.of_exec executed
  have three := of_decide_eq_true counted
  have spread := (heartbeats_on_schedule (by decide) started run).1
  rw [three] at spread
  exact ⟨first, paced, started, run, three, spread⟩

end PacedWorker

end Cdcm.Backend
