import Cdcm.Backend.MessageWorker

/-!
# What the steps of a worker do

One description for each step: what the journal, the queue and the connection
become.  The results about runs use these descriptions only.
-/

namespace Cdcm.Backend

open Json Protocol Zmq

/-- The id under which a call of an action is postponed, if it is; a call may
fail. -/
def postponedId (env : WorkerEnvironment) (input : ActInput) (actionMessage : Value) :
    Except Fault (Option ByteString) := do
  match ← readId env actionMessage, input.outcome with
  | none, _ => return none
  | some _, .throws => throw .exception
  | some id, .returns status _ _ => return if status = .postponed then some id else none

/-- The client and the request in the frames of a `REQUEST`. -/
def requestOf (frames : List ByteString) : Option (ByteString × Zmsg) :=
  match (Zmsg.recv frames).partData with
  | _ :: _ :: part :: rest =>
      if cStr part = mdpwRequest then some (Zmsg.unwrap ⟨rest⟩) else none
  | _ => none

/-- A `REPLY` that carries the results under the header to the client. -/
def Sent.Carries (env : WorkerEnvironment) (sent : Sent) (answered : Answered) : Prop :=
  ∃ body, ResMsg.print env.library none ⟨answered.hdr, answered.answers.map Answer.result⟩ =
      some body ∧
    sent.msg = MessageWorker.brokerMessage mdpwReply []
      (some (MessageWorker.replyMessage body answered.client))

/-- The result is under the id of its action, or under `unknown`. -/
def Answer.Names (env : WorkerEnvironment) (answer : Answer) : Prop :=
  ∀ action ∈ answer.action,
    readId env action = .ok (some answer.result.id) ∨
      answer.result.id = idOrUnknown action ∨ answer.result.id = text "unknown"

theorem malformedResult_id {id : ByteString} {result : ResultMsg}
    (malformed : malformedResult id = some result) : result.id = id :=
  (setResponseForError_spec malformed).1

theorem malformedResult_isSome (id : ByteString) : (malformedResult id).isSome :=
  setResponseForError_isSome _ (by decide)

namespace MessageWorker

variable {env : WorkerEnvironment} {worker next : MessageWorker}

theorem sendToBroker_spec {command option : ByteString} {msg : Option Zmsg}
    {answered : Option Answered}
    (sent : worker.sendToBroker command option msg answered = some next) :
    next = { worker with
      journal := worker.journal ++
        [⟨worker.identity, brokerMessage command option msg, answered⟩] } := by
  simp only [sendToBroker, Option.bind_eq_bind, Option.bind_eq_some_iff, Option.pure_def,
    Option.some.injEq] at sent
  obtain ⟨_, _, rfl⟩ := sent
  rfl

/-- A message without results always goes out. -/
theorem sendToBroker_bare_isSome {command : ByteString} :
    (worker.sendToBroker command [] none none).isSome := by
  have sends : (brokerMessage command [] none).send.isSome := by
    refine Zmsg.send_isSome fun part member => ?_
    simp only [brokerMessage, List.length_nil, ne_eq, not_true_eq_false, if_false,
      Option.getD_none, Zmsg.empty, Zmsg.partData_pushFront, List.mem_cons, List.not_mem_nil,
      or_false] at member
    rcases member with rfl | rfl | rfl <;> exact zero_not_mem_cStr _
  obtain ⟨frames, sent⟩ := Option.isSome_iff_exists.mp sends
  simp [sendToBroker, sent]

/-! ## Postponed actions -/

/-- A retried action waits again, or it is answered and taken out of the queue. -/
inductive Retried (env : WorkerEnvironment) (worker : MessageWorker) (top : PostponedAction) :
    MessageWorker → Prop where
  | again (now : Int) : Retried env worker top { worker with
      postponedActions :=
        (worker.postponedActions.decrementRunsAndUpdateExpiration now top.id).1 }
  | answered {sent : Sent} {result : ResultMsg} (identity : sent.identity = worker.identity)
      (isAnswered : sent.answered =
        some ⟨top.replyTo, top.header, [⟨some top.actionMessage, result⟩]⟩)
      (carries : sent.Carries env
        ⟨top.replyTo, top.header, [⟨some top.actionMessage, result⟩]⟩)
      (named : result.id = top.id) :
      Retried env worker top { worker with
        journal := worker.journal ++ [sent]
        postponedActions := (worker.postponedActions.removeById top.id).1 }

theorem retry_spec {input : ActInput} {top : PostponedAction}
    (reads : readId env top.actionMessage = .ok (some top.id))
    (retried : worker.retry env input top = some next) : Retried env worker top next := by
  rw [retry, reads] at retried
  simp only [Except.toOption, Option.bind_eq_bind, Option.bind_some] at retried
  cases outcome : input.outcome with
  | throws => rw [outcome] at retried; contradiction
  | returns status respStatus result =>
      rw [outcome] at retried
      dsimp only at retried
      split at retried
      · obtain rfl := Option.some.inj retried
        exact .again _
      · simp only [Option.bind_eq_some_iff, Option.some.injEq] at retried
        obtain ⟨body, printed, replied, sent, rfl⟩ := retried
        rw [sendToBroker_spec sent]
        exact .answered rfl rfl ⟨body, printed, rfl⟩ rfl

/-! ## Polls -/

/-- A message without results. -/
def bare (identity command : ByteString) : Sent :=
  ⟨identity, brokerMessage command [] none, none⟩

/-- What a poll sends: heartbeats, behind a `READY` when it connects anew. -/
inductive PollSent (worker : MessageWorker) (input : PollInput) (next : MessageWorker) :
    Prop where
  | stays (identity : next.identity = worker.identity) (beats : List Sent)
      (journal : next.journal = worker.journal ++ beats)
      (quiet : ∀ sent ∈ beats, sent = bare worker.identity mdpwHeartbeat)
  | reconnects (identity : next.identity = input.identity) (beats : List Sent)
      (journal : next.journal =
        worker.journal ++ bare input.identity mdpwReady :: beats)
      (quiet : ∀ sent ∈ beats, sent = bare input.identity mdpwHeartbeat)

/-- A poll takes a `REQUEST` to serve, or it sends what it has to and goes on. -/
structure Polled (worker : MessageWorker) (input : PollInput) (next : MessageWorker) :
    Prop where
  postponedActions : next.postponedActions = worker.postponedActions
  reply : next.reply = worker.reply
  expectReply : next.expectReply = worker.expectReply
  request : match input.frames.bind requestOf with
    | some (client, request) => next.replyTo = client ∧ next.phase = .serving request ∧
        next.identity = worker.identity ∧ next.journal = worker.journal
    | none => (∃ now, next.phase = .handling now) ∧ PollSent worker input next

theorem connectToBroker_spec {identity : ByteString} {now : Int}
    (connected : worker.connectToBroker env identity now = some next) :
    next = { worker with
      identity := identity
      liveness := env.heartbeatLiveness
      heartbeatAt := now + env.heartbeatInterval
      journal := worker.journal ++ [bare identity mdpwReady] } := by
  simp only [connectToBroker, Option.bind_eq_bind, Option.bind_eq_some_iff, Option.pure_def,
    Option.some.injEq] at connected
  obtain ⟨_, sent, rfl⟩ := connected
  rw [sendToBroker_spec sent]
  rfl

theorem beat_spec {input : PollInput} (beaten : worker.beat env input = some next) :
    ∃ beats heartbeatAt, (∀ sent ∈ beats, sent = bare worker.identity mdpwHeartbeat) ∧
      next = { worker with
        heartbeatAt := heartbeatAt
        phase := .handling (toTimeT input.handle)
        journal := worker.journal ++ beats } := by
  rw [beat] at beaten
  by_cases isTime : input.beat ≥ worker.heartbeatAt
  · simp only [if_pos isTime, Option.bind_eq_bind, Option.bind_eq_some_iff, Option.pure_def,
      Option.some.injEq] at beaten
    obtain ⟨_, sent, _, rfl, rfl⟩ := beaten
    rw [sendToBroker_spec sent]
    exact ⟨[bare worker.identity mdpwHeartbeat], _,
      fun _ member => List.mem_singleton.mp member, rfl⟩
  · simp only [if_neg isTime, Option.bind_eq_bind, Option.bind_some, Option.pure_def,
      Option.some.injEq] at beaten
    exact ⟨[], _, nofun, by rw [← beaten, List.append_nil]⟩

theorem connectToBroker_isSome (identity : ByteString) (now : Int) :
    (worker.connectToBroker env identity now).isSome := by
  obtain ⟨next, sent⟩ := Option.isSome_iff_exists.mp
    (@sendToBroker_bare_isSome { worker with identity := identity } mdpwReady)
  simp [connectToBroker, sent]

theorem beat_isSome (input : PollInput) : (worker.beat env input).isSome := by
  obtain ⟨next, sent⟩ := Option.isSome_iff_exists.mp
    (@sendToBroker_bare_isSome worker mdpwHeartbeat)
  by_cases isTime : input.beat ≥ worker.heartbeatAt <;> simp [beat, isTime, sent]

/-- No command of the broker is refused. -/
theorem obey_isSome (input : PollInput) (command : ByteString) (msg : Zmsg) :
    (worker.obey env input command msg).isSome := by
  rw [obey]
  split
  next => rfl
  next =>
    split
    next => exact beat_isSome input
    next =>
      split
      next =>
        obtain ⟨connected, isConnected⟩ :=
          Option.isSome_iff_exists.mp
            (@connectToBroker_isSome env worker input.identity input.connect)
        simp only [isConnected, Option.bind_eq_bind, Option.bind_some]
        exact beat_isSome input
      next => exact beat_isSome input

/-- A poll that ends with the heartbeat. -/
theorem Polled.of_beat {input : PollInput} {liveness : Nat}
    (noRequest : input.frames.bind requestOf = none)
    (beaten : beat env { worker with liveness := liveness } input = some next) :
    Polled worker input next := by
  obtain ⟨beats, heartbeatAt, quiet, rfl⟩ := beat_spec beaten
  refine ⟨rfl, rfl, rfl, ?_⟩
  rw [noRequest]
  exact ⟨⟨_, rfl⟩, .stays rfl beats rfl quiet⟩

/-- A poll that connects anew. -/
theorem Polled.of_reconnect {input : PollInput} {liveness : Nat}
    (noRequest : input.frames.bind requestOf = none)
    (reconnected : (do
      let worker ← connectToBroker env { worker with liveness := liveness } input.identity
        input.connect
      worker.beat env input) = some next) :
    Polled worker input next := by
  simp only [Option.bind_eq_bind, Option.bind_eq_some_iff] at reconnected
  obtain ⟨connected, isConnected, beaten⟩ := reconnected
  obtain rfl := connectToBroker_spec isConnected
  obtain ⟨beats, heartbeatAt, quiet, rfl⟩ := beat_spec beaten
  refine ⟨rfl, rfl, rfl, ?_⟩
  rw [noRequest]
  exact ⟨⟨_, rfl⟩, .reconnects rfl beats (List.append_assoc _ _ _) quiet⟩

theorem obey_spec {input : PollInput} {liveness : Nat} {command : ByteString} {msg : Zmsg}
    (request : input.frames.bind requestOf =
      if command = mdpwRequest then some msg.unwrap else none)
    (obeyed : obey env { worker with liveness := liveness } input command msg = some next) :
    Polled worker input next := by
  rw [obey] at obeyed
  by_cases isRequest : command = mdpwRequest
  · rw [if_pos isRequest] at obeyed request
    obtain rfl := Option.some.inj obeyed
    refine ⟨rfl, rfl, rfl, ?_⟩
    rw [request]
    exact ⟨rfl, rfl, rfl, rfl⟩
  · rw [if_neg isRequest] at obeyed request
    split at obeyed
    next => exact .of_beat request obeyed
    next =>
      split at obeyed
      next => exact .of_reconnect request obeyed
      next => exact .of_beat request obeyed

/-- The frames of a command pass the assertions of `recv`. -/
theorem receive_eq {input : PollInput} {part : ByteString} {rest frames : List ByteString}
    (received : Zmsg.recv frames = ⟨[] :: mdpwWorker :: part :: rest⟩) :
    worker.receive env input frames =
      obey env { worker with liveness := env.heartbeatLiveness } input (cStr part) ⟨rest⟩ := by
  rw [receive, received]
  have long : ¬ Zmsg.parts ⟨[] :: mdpwWorker :: part :: rest⟩ < 3 := by simp [Zmsg.parts]
  rw [if_neg long]
  rfl

theorem receive_spec {input : PollInput} {frames : List ByteString}
    (isFrames : input.frames = some frames)
    (received : worker.receive env input frames = some next) : Polled worker input next := by
  rw [receive] at received
  have request : input.frames.bind requestOf = requestOf frames := by
    rw [isFrames, Option.bind_some]
  rw [requestOf] at request
  generalize Zmsg.recv frames = msg at received request
  obtain ⟨parts⟩ := msg
  match parts with
  | [] | [_] | [_, _] => simp [Zmsg.parts] at received
  | empty :: header :: part :: rest =>
      have long : ¬ Zmsg.parts ⟨empty :: header :: part :: rest⟩ < 3 := by simp [Zmsg.parts]
      rw [if_neg long] at received
      change (if empty ≠ [] then none else if header ≠ mdpwWorker then none else
        obey env { worker with liveness := env.heartbeatLiveness } input (cStr part) ⟨rest⟩) =
          some next at received
      split at received
      next => contradiction
      next =>
        split at received
        next => contradiction
        next => exact obey_spec request received

theorem poll_spec {input : PollInput} (polled : worker.poll env input = some next) :
    Polled worker input next := by
  rw [poll] at polled
  cases isFrames : input.frames with
  | some frames =>
      rw [isFrames] at polled
      exact receive_spec isFrames polled
  | none =>
      have noRequest : input.frames.bind requestOf = none := by rw [isFrames, Option.bind_none]
      rw [isFrames] at polled
      dsimp only [expire] at polled
      split at polled
      next => exact .of_reconnect noRequest polled
      next => exact .of_beat noRequest polled

/-! ## Requests -/

/-- What becomes of one action: it is postponed, or it has a result. -/
inductive ActedOn (env : WorkerEnvironment) (worker : MessageWorker) (hdr : Header)
    (actionMessage : Value) : Option ByteString → MessageWorker → List Answer → Prop where
  | postponed (pa : PostponedAction) (action : pa.actionMessage = actionMessage)
      (replyTo : pa.replyTo = worker.replyTo) (header : pa.header = hdr)
      (reads : readId env actionMessage = .ok (some pa.id)) :
      ActedOn env worker hdr actionMessage (some pa.id)
        { worker with postponedActions := (worker.postponedActions.add pa).1 } []
  | answered {result : ResultMsg} (names : Answer.Names env ⟨some actionMessage, result⟩) :
      ActedOn env worker hdr actionMessage none worker [⟨some actionMessage, result⟩]

/-- An action is acted on as its call decides. -/
theorem actOn_spec (hdr : Header) (input : ActInput) (actionMessage : Value) :
    match postponedId env input actionMessage with
    | .error fault => worker.actOn env hdr input actionMessage = .error fault
    | .ok postponed => ∃ next answers,
        worker.actOn env hdr input actionMessage = .ok (next, answers) ∧
          ActedOn env worker hdr actionMessage postponed next answers := by
  rw [postponedId, actOn]
  cases reads : readId env actionMessage with
  | error fault => rfl
  | ok found =>
      cases found with
      | none =>
          obtain ⟨result, malformed⟩ :=
            Option.isSome_iff_exists.mp (malformedResult_isSome (idOrUnknown actionMessage))
          refine ⟨worker, [⟨some actionMessage, result⟩], ?_, .answered ?_⟩
          · simp only [bind, Except.bind, malformed]
            rfl
          · rintro _ ⟨⟩
            exact .inr (.inl (malformedResult_id malformed))
      | some id =>
          simp only [bind, Except.bind]
          cases input.outcome with
          | throws => rfl
          | returns status respStatus result =>
              by_cases waits : status = .postponed
              · simp only [if_pos waits]
                refine ⟨_, _, rfl, ?_⟩
                exact .postponed ⟨_, _, _, _, _, _⟩ rfl rfl rfl reads
              · simp only [if_neg waits]
                refine ⟨_, _, rfl, .answered ?_⟩
                rintro _ ⟨⟩
                exact .inl reads

/-- What an event changes at most: the postponed actions. -/
theorem ActedOn.queue {hdr : Header} {actionMessage : Value} {postponed : Option ByteString}
    {answers : List Answer} (acted : ActedOn env worker hdr actionMessage postponed next answers) :
    ∃ queue, next = { worker with postponedActions := queue } := by
  cases acted with
  | postponed => exact ⟨_, rfl⟩
  | answered => exact ⟨worker.postponedActions, rfl⟩

/-- What acting on one action keeps, the loop over the actions keeps. -/
theorem actOnAll_invariant {hdr : Header} {acts : Nat → ActInput}
    {actions : List (Value × Nat)} {answers results : List Answer}
    {fault : Option (Value × Fault)} (invariant : MessageWorker → Prop)
    (keeps : ∀ {before after actionMessage postponed answers}, invariant before →
      ActedOn env before hdr actionMessage postponed after answers → invariant after)
    (start : invariant worker)
    (acted : actOnAll env hdr acts actions worker answers = (next, results, fault)) :
    invariant next := by
  induction actions generalizing worker answers with
  | nil =>
      obtain ⟨rfl, _⟩ := Prod.mk.inj acted
      exact start
  | cons head rest ih =>
      have spec := @actOn_spec env worker hdr (acts head.2) head.1
      rw [actOnAll] at acted
      split at spec
      next fault _ =>
        rw [spec] at acted
        obtain ⟨rfl, _⟩ := Prod.mk.inj acted
        exact start
      next postponed _ =>
        obtain ⟨turned, answer, isTurned, effect⟩ := spec
        rw [isTurned] at acted
        exact ih (keeps start effect) acted

/-- The loop over the actions changes the postponed actions at most. -/
theorem actOnAll_queue {hdr : Header} {acts : Nat → ActInput} {actions : List (Value × Nat)}
    {answers results : List Answer} {fault : Option (Value × Fault)}
    (acted : actOnAll env hdr acts actions worker answers = (next, results, fault)) :
    ∃ queue, next = { worker with postponedActions := queue } := by
  refine actOnAll_invariant (fun next => ∃ queue, next = { worker with postponedActions := queue })
    ?_ ⟨worker.postponedActions, rfl⟩ acted
  rintro _ _ _ _ _ ⟨_, rfl⟩ effect
  obtain ⟨queue, rfl⟩ := effect.queue
  exact ⟨queue, rfl⟩

/-- How the execution of a request ends: the request cannot be read, all its actions are acted
on, or one of them fails. -/
inductive Executed (env : WorkerEnvironment) (worker : MessageWorker) (input : ServeInput)
    (mstr : ByteString) : MessageWorker → Header → List Answer → Prop where
  | unread {result : ResultMsg} (reads : readRequest env.library mstr = .error .exception)
      (malformed : malformedResult (text "unknown") = some result) :
      Executed env worker input mstr worker .new [⟨none, result⟩]
  | acted {hdr : Header} {actions : List Value} {next : MessageWorker} {answers : List Answer}
      (reads : readRequest env.library mstr = .ok (hdr, actions))
      (acted : actOnAll env hdr input.acts actions.zipIdx worker [] = (next, answers, none)) :
      Executed env worker input mstr next hdr answers
  | failed {hdr : Header} {actions : List Value} {next : MessageWorker} {answers : List Answer}
      {action : Value} {result : ResultMsg}
      (reads : readRequest env.library mstr = .ok (hdr, actions))
      (acted : actOnAll env hdr input.acts actions.zipIdx worker [] =
        (next, answers, some (action, .exception)))
      (malformed : malformedResult (text "unknown") = some result) :
      Executed env worker input mstr next hdr (answers ++ [⟨some action, result⟩])

theorem execute_cases {input : ServeInput} {mstr : ByteString} {hdr : Header}
    {answers : List Answer}
    (executed : worker.execute env input mstr = some (next, hdr, answers)) :
    Executed env worker input mstr next hdr answers := by
  rw [execute] at executed
  split at executed
  next => contradiction
  next reads =>
    simp only [Option.bind_eq_bind, Option.bind_eq_some_iff, Option.pure_def, Option.some.injEq,
      Prod.mk.injEq] at executed
    obtain ⟨result, malformed, rfl, rfl, rfl⟩ := executed
    exact .unread reads malformed
  next reads =>
    split at executed
    next acted =>
      obtain ⟨rfl, rfl, rfl⟩ := executed
      exact .acted reads acted
    next => contradiction
    next acted =>
      simp only [Option.bind_eq_bind, Option.bind_eq_some_iff, Option.pure_def,
        Option.some.injEq, Prod.mk.injEq] at executed
      obtain ⟨result, malformed, rfl, rfl, rfl⟩ := executed
      exact .failed reads acted malformed

/-- Executing a request changes the postponed actions at most. -/
theorem execute_queue {input : ServeInput} {mstr : ByteString} {hdr : Header}
    {answers : List Answer}
    (executed : worker.execute env input mstr = some (next, hdr, answers)) :
    ∃ queue, next = { worker with postponedActions := queue } := by
  cases execute_cases executed with
  | unread => exact ⟨worker.postponedActions, rfl⟩
  | acted _ acted => exact actOnAll_queue acted
  | failed _ acted => exact actOnAll_queue acted

/-- The pending reply goes out when there is a client for it. -/
theorem sendReply_spec (sent : worker.sendReply = some next) :
    match worker.reply with
    | none => worker.expectReply = false ∧ next = { worker with expectReply := true }
    | some reply => next = if worker.replyTo = [] then { worker with expectReply := true }
        else { worker with
          replyTo := []
          reply := none
          expectReply := true
          journal := worker.journal ++
            [⟨worker.identity,
              brokerMessage mdpwReply [] (some (replyMessage reply.body worker.replyTo)),
              some ⟨worker.replyTo, reply.hdr, reply.answers⟩⟩] } := by
  rw [sendReply] at sent
  cases pending : worker.reply with
  | none =>
      rw [pending] at sent
      cases expects : worker.expectReply with
      | true => simp [expects] at sent
      | false =>
          simp only [expects, Option.isNone_none, Bool.false_eq_true, and_false, if_false,
            Option.bind_eq_bind, Option.bind_some, Option.pure_def, Option.some.injEq] at sent
          refine ⟨rfl, ?_⟩
          rw [← sent, pending]
  | some reply =>
      rw [pending] at sent
      by_cases unnamed : worker.replyTo = []
      · simp only [unnamed, Option.isNone_some, Bool.false_eq_true, false_and, if_false, ne_eq,
          not_true_eq_false, Option.bind_eq_bind, Option.bind_some, Option.pure_def,
          Option.some.injEq] at sent
        rw [← sent]
        simp [unnamed, pending]
      · simp only [Option.isNone_some, Bool.false_eq_true, false_and, if_false, ne_eq, unnamed,
          not_false_eq_true, if_true, Option.bind_eq_bind, Option.bind_eq_some_iff,
          Option.pure_def, Option.some.injEq] at sent
        obtain ⟨_, told, _, rfl, rfl⟩ := sent
        rw [sendToBroker_spec told]
        simp [unnamed]

/-- A worker starts connected, without anything to send. -/
theorem start_spec {identity : ByteString} {connect handle : Int}
    (started : start env identity connect handle = some worker) :
    ∃ heartbeatAt now, worker = ⟨identity, env.heartbeatLiveness, heartbeatAt, true, [], .empty,
      none, .handling now, [bare identity mdpwReady]⟩ := by
  simp only [start, Option.bind_eq_bind, Option.bind_eq_some_iff] at started
  obtain ⟨connected, isConnected, sent⟩ := started
  obtain rfl := connectToBroker_spec isConnected
  obtain ⟨_, rfl⟩ := sendReply_spec sent
  exact ⟨_, _, rfl⟩

/-- A served request: its results, if any, went out in a `REPLY` to its client. -/
structure Served (env : WorkerEnvironment) (worker : MessageWorker) (hdr : Header)
    (answers : List Answer) (queue : PostponedActionsQueue) (next : MessageWorker) :
    Prop where
  identity : next.identity = worker.identity
  postponedActions : next.postponedActions = queue
  reply : next.reply = none
  expectReply : next.expectReply = true
  phase : ∃ now, next.phase = .handling now
  silent : answers = [] → next.journal = worker.journal
  replied : answers ≠ [] → ∃ sent : Sent, next.journal = worker.journal ++ [sent] ∧
    sent.identity = worker.identity ∧
    sent.answered = some ⟨worker.replyTo, hdr, answers⟩ ∧
    sent.Carries env ⟨worker.replyTo, hdr, answers⟩

/-- A worker without a pending reply serves a request of a client. -/
theorem serve_spec {input : ServeInput} {request : Zmsg} (idle : worker.reply = none)
    (expects : worker.expectReply = true) (named : worker.replyTo ≠ [])
    (served : worker.serve env input request = some next) :
    ∃ body executed hdr answers, request.body = some body ∧
      worker.execute env input (cStr body) = some (executed, hdr, answers) ∧
      Served env worker hdr answers executed.postponedActions next := by
  simp only [serve, Option.bind_eq_bind, Option.bind_eq_some_iff, Prod.exists, Option.pure_def,
    Option.some.injEq] at served
  obtain ⟨body, isBody, executed, hdr, answers, isExecuted, replied, sent, rfl⟩ := served
  refine ⟨body, executed, hdr, answers, isBody, isExecuted, ?_⟩
  obtain ⟨queue, rfl⟩ := execute_queue isExecuted
  have spec := sendReply_spec sent
  rw [buildReply] at spec
  by_cases noAnswers : answers = []
  · simp only [noAnswers, ne_eq, not_true_eq_false, if_false, idle] at spec
    obtain ⟨_, rfl⟩ := spec
    exact
      { identity := rfl, postponedActions := rfl, reply := rfl, expectReply := rfl
        phase := ⟨_, rfl⟩, silent := fun _ => rfl
        replied := fun some => absurd noAnswers some }
  · simp only [ne_eq, noAnswers, not_false_eq_true, if_true] at spec
    cases printed : ResMsg.print env.library none ⟨hdr, answers.map Answer.result⟩ with
    | none =>
        simp only [printed, idle, expects] at spec
        exact absurd spec.1 Bool.noConfusion
    | some text =>
        simp only [printed] at spec
        rw [if_neg named] at spec
        obtain rfl := spec
        exact
          { identity := rfl, postponedActions := rfl, reply := rfl, expectReply := rfl
            phase := ⟨_, rfl⟩, silent := fun none => absurd none noAnswers
            replied := fun _ => ⟨_, rfl, rfl, rfl, text, printed, rfl⟩ }

/-- The loop over the actions postpones for the client of the request only. -/
theorem actOnAll_postpones {hdr : Header} {acts : Nat → ActInput}
    {actions : List (Value × Nat)} {answers results : List Answer}
    {fault : Option (Value × Fault)}
    (acted : actOnAll env hdr acts actions worker answers = (next, results, fault)) :
    ∀ pa ∈ next.postponedActions.actions,
      pa ∈ worker.postponedActions.actions ∨ pa.replyTo = worker.replyTo := by
  have both := actOnAll_invariant (fun next => next.replyTo = worker.replyTo ∧
      ∀ pa ∈ next.postponedActions.actions,
        pa ∈ worker.postponedActions.actions ∨ pa.replyTo = worker.replyTo)
    (fun holds effect => ?_) ⟨rfl, fun pa member => .inl member⟩ acted
  · exact both.2
  · obtain ⟨client, earlier⟩ := holds
    cases effect with
    | answered => exact ⟨client, earlier⟩
    | postponed added _ replyTo _ _ =>
        refine ⟨client, fun pa isIn => ?_⟩
        dsimp only at isIn
        rw [PostponedActionsQueue.actions_add] at isIn
        split at isIn
        · exact earlier pa isIn
        · rcases Multiset.mem_cons.mp isIn with rfl | old
          · exact .inr (replyTo.trans client)
          · exact earlier pa old

theorem execute_postpones {input : ServeInput} {mstr : ByteString} {hdr : Header}
    {answers : List Answer}
    (executed : worker.execute env input mstr = some (next, hdr, answers)) :
    ∀ pa ∈ next.postponedActions.actions,
      pa ∈ worker.postponedActions.actions ∨ pa.replyTo = worker.replyTo := by
  cases execute_cases executed with
  | unread => exact fun pa member => .inl member
  | acted _ acted => exact actOnAll_postpones acted
  | failed _ acted => exact actOnAll_postpones acted

/-- The text of a response. -/
def IsResponse (env : WorkerEnvironment) (body : ByteString) : Prop :=
  ∃ response : ResMsg, response.print env.library none = some body

/-- A response to a client on the socket of an identity. -/
def Sent.RepliesTo (env : WorkerEnvironment) (sent : Sent) (identity client : ByteString) :
    Prop :=
  sent.identity = identity ∧ ∃ body, IsResponse env body ∧
    sent.msg = brokerMessage mdpwReply [] (some (replyMessage body client))

/-- The pending reply, if any, is the text of a response. -/
def PendingPrinted (env : WorkerEnvironment) (worker : MessageWorker) : Prop :=
  ∀ reply, worker.reply = some reply → IsResponse env reply.body

/-- What building a reply keeps: it may drop the client, when there is nothing to
send. -/
structure BuildKeeps (env : WorkerEnvironment) (worker next : MessageWorker) : Prop where
  identity : next.identity = worker.identity
  journal : next.journal = worker.journal
  postponedActions : next.postponedActions = worker.postponedActions
  replyTo : next.replyTo = worker.replyTo ∨ next.replyTo = []
  printed : worker.PendingPrinted env → next.PendingPrinted env

theorem buildReply_keeps (hdr : Header) (answers : List Answer) :
    BuildKeeps env worker (worker.buildReply env hdr answers) := by
  rw [buildReply]
  split
  · split
    next body printed =>
      refine ⟨rfl, rfl, rfl, .inl rfl, fun _ => ?_⟩
      rintro _ ⟨⟩
      exact ⟨_, printed⟩
    next => exact ⟨rfl, rfl, rfl, .inl rfl, id⟩
  · exact ⟨rfl, rfl, rfl, .inr rfl, id⟩

/-- The pending reply goes to the client of the request only. -/
theorem sendReply_sends (printed : worker.PendingPrinted env)
    (sent : worker.sendReply = some next) :
    next.postponedActions = worker.postponedActions ∧ next.PendingPrinted env ∧
      ∃ entries, next.journal = worker.journal ++ entries ∧ ∀ entry ∈ entries,
        worker.replyTo ≠ [] ∧ Sent.RepliesTo env entry worker.identity worker.replyTo := by
  have spec := sendReply_spec sent
  split at spec
  next none =>
    obtain ⟨_, rfl⟩ := spec
    exact ⟨rfl, printed, [], by simp, by simp⟩
  next reply pending =>
    subst spec
    split
    next => exact ⟨rfl, printed, [], by simp, by simp⟩
    next named =>
      refine ⟨rfl, nofun, [_], rfl, fun entry member => ?_⟩
      rw [List.mem_singleton.mp member]
      exact ⟨named, rfl, reply.body, printed reply pending, rfl⟩

/-- Serving a request sends responses to its client only, and postpones actions for
it only. -/
theorem serve_sends {input : ServeInput} {request : Zmsg} (printed : worker.PendingPrinted env)
    (served : worker.serve env input request = some next) :
    next.PendingPrinted env ∧
      (∃ sent, next.journal = worker.journal ++ sent ∧
        ∀ entry ∈ sent, Sent.RepliesTo env entry worker.identity worker.replyTo) ∧
      ∀ pa ∈ next.postponedActions.actions,
        pa ∈ worker.postponedActions.actions ∨ pa.replyTo = worker.replyTo := by
  simp only [serve, Option.bind_eq_bind, Option.bind_eq_some_iff, Prod.exists, Option.pure_def,
    Option.some.injEq] at served
  obtain ⟨body, _, executed, hdr, answers, isExecuted, replied, sent, rfl⟩ := served
  have postpones := execute_postpones isExecuted
  obtain ⟨queue, rfl⟩ := execute_queue isExecuted
  have built := @buildReply_keeps env { worker with postponedActions := queue } hdr answers
  obtain ⟨sameQueue, stillPrinted, entries, journal, replies⟩ :=
    sendReply_sends (built.printed printed) sent
  refine ⟨stillPrinted, ⟨entries, ?_, fun entry member => ?_⟩, fun pa member => ?_⟩
  · exact journal.trans (by rw [built.journal])
  · obtain ⟨named, isReply⟩ := replies entry member
    rwa [built.identity, built.replyTo.resolve_right named] at isReply
  · refine postpones pa ?_
    have stays : pa ∈ replied.postponedActions.actions := member
    rwa [sameQueue, built.postponedActions] at stays

/-- Retrying an action sends a response to its client only. -/
theorem retry_sends {input : ActInput} {top : PostponedAction}
    (retried : worker.retry env input top = some next) :
    next.reply = worker.reply ∧
      (∃ sent, next.journal = worker.journal ++ sent ∧
        ∀ entry ∈ sent, Sent.RepliesTo env entry worker.identity top.replyTo) ∧
      ∀ pa ∈ next.postponedActions.actions, ∃ old ∈ worker.postponedActions.actions,
        pa.replyTo = old.replyTo := by
  simp only [retry, Option.bind_eq_bind, Option.bind_eq_some_iff] at retried
  obtain ⟨found, _, retried⟩ := retried
  split at retried
  next =>
    obtain rfl := Option.some.inj retried
    exact ⟨rfl, ⟨[], by simp, by simp⟩, fun pa member => ⟨pa, member, rfl⟩⟩
  next id =>
    split at retried
    next => contradiction
    next status respStatus result _ =>
      split at retried
      · obtain rfl := Option.some.inj retried
        exact ⟨rfl, ⟨[], by simp, by simp⟩, fun pa member =>
          PostponedActionsQueue.replyTo_of_mem_decrement member⟩
      · simp only [Option.bind_eq_some_iff, Option.some.injEq] at retried
        obtain ⟨body, printed, replied, sent, rfl⟩ := retried
        rw [sendToBroker_spec sent]
        refine ⟨rfl, ⟨[_], rfl, fun entry member => ?_⟩, fun pa member =>
          ⟨pa, PostponedActionsQueue.mem_removeById member, rfl⟩⟩
        rw [List.mem_singleton.mp member]
        exact ⟨rfl, body, ⟨_, printed⟩, rfl⟩

/-! ## Steps -/

/-- The loop over the postponed actions ends, or it retries one of them. -/
theorem handlePostponedAction_cases {now : Int} {input : ActInput}
    (handled : worker.handlePostponedAction env now input = some next) :
    next = { worker with phase := .polling } ∨
      ∃ top ∈ worker.postponedActions.actions, worker.retry env input top = some next := by
  rw [handlePostponedAction] at handled
  split at handled
  next top isTop =>
    split at handled
    next => exact .inr ⟨top, PostponedActionsQueue.top_mem isTop, handled⟩
    next => exact .inl (Option.some.inj handled).symm
  next => exact .inl (Option.some.inj handled).symm

/-- A step is the one of the worker's phase. -/
theorem step_cases {event : WorkerEvent} (stepped : worker.step env event = some next) :
    (∃ input now, event = .retry input ∧ worker.phase = .handling now ∧
        worker.handlePostponedAction env now input = some next) ∨
      (∃ input, event = .poll input ∧ worker.phase = .polling ∧
        worker.poll env input = some next) ∨
      ∃ input request, event = .serve input ∧ worker.phase = .serving request ∧
        worker.serve env input request = some next := by
  cases phase : worker.phase <;> cases event <;>
    simp only [MessageWorker.step, phase] at stepped <;> first | contradiction | skip
  case handling.retry now input => exact .inl ⟨input, now, rfl, rfl, stepped⟩
  case polling.poll input => exact .inr (.inl ⟨input, rfl, rfl, stepped⟩)
  case serving.serve request input => exact .inr (.inr ⟨input, request, rfl, rfl, stepped⟩)

/-- A step keeps the pending reply a response. -/
theorem step_printed {event : WorkerEvent} (printed : worker.PendingPrinted env)
    (stepped : worker.step env event = some next) : next.PendingPrinted env := by
  rcases step_cases stepped with ⟨input, now, _, _, handled⟩ | ⟨input, _, _, polled⟩ |
    ⟨input, request, _, _, served⟩
  · rcases handlePostponedAction_cases handled with rfl | ⟨top, _, retried⟩
    · exact printed
    · intro reply pending
      rw [(retry_sends retried).1] at pending
      exact printed reply pending
  · intro reply pending
    rw [(poll_spec polled).reply] at pending
    exact printed reply pending
  · exact (serve_sends printed served).1

end MessageWorker

end Cdcm.Backend
