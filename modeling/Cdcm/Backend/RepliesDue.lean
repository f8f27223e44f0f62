import Cdcm.Backend.WorkerLiveness

/-!
# Replies that are due

A request makes one reply with all the results that are there at once, and one for each
action that the queue keeps.  Each of them makes the broker take the worker for idle, so a
request should make exactly one.  What a worker has taken, and what it still has to send,
then balance in every step.
-/

namespace Cdcm.Backend

open Json Protocol Zmq

/-! ## Requests that make one reply -/

/-- A call ends with its action postponed. -/
def IsPostponed (env : WorkerEnvironment) (acts : Nat → ActInput) (entry : Value × Nat) : Prop :=
  (postponedId env (acts entry.2) entry.1).toOption.join.isSome = true

instance (env : WorkerEnvironment) (acts : Nat → ActInput) (entry : Value × Nat) :
    Decidable (IsPostponed env acts entry) := inferInstanceAs (Decidable (_ = true))

/-- The ids among these under which the queue has no action. -/
def newIds (queue : PostponedActionsQueue) (ids : List ByteString) : Finset ByteString :=
  ids.toFinset.filter fun id => ¬ queue.Has id

/-- How many replies the actions of a request make. -/
def batchReplies (env : WorkerEnvironment) (acts : Nat → ActInput)
    (queue : PostponedActionsQueue) (batch : List (Value × Nat)) : Nat :=
  (newIds queue (postponedIds env acts batch)).card +
    if ∀ entry ∈ batch, IsPostponed env acts entry then 0 else 1

/-- How many replies a request makes; one that cannot be read makes one. -/
def requestReplies (env : WorkerEnvironment) (acts : Nat → ActInput)
    (queue : PostponedActionsQueue) : Except Fault (Header × List Value) → Nat
  | .ok (_, actions) => batchReplies env acts queue actions.zipIdx
  | .error _ => 1

/-- The command of a message of the broker. -/
def commandOf (frames : List ByteString) : Option ByteString :=
  match (Zmsg.recv frames).partData with
  | _ :: _ :: part :: _ => some (cStr part)
  | _ => none

/-- How many requests are being served. -/
def Phase.inService : Phase → Nat
  | .serving _ => 1
  | .handling _ | .polling => 0

namespace MessageWorker

variable (env : WorkerEnvironment) (worker : MessageWorker)

/-- In a phase, an event serves no request, or one of a client that makes one reply. -/
def RepliesOnceIn : WorkerEvent → Phase → Prop
  | .serve input, .serving request =>
      worker.replyTo ≠ [] ∧
        requestReplies env input.acts worker.postponedActions
          (readRequest env.library (cStr (request.body.getD []))) = 1
  | _, _ => True

/-- A request that is served has a client, and makes one reply. -/
def RepliesOnce (event : WorkerEvent) : Prop := worker.RepliesOnceIn env event worker.phase

instance decidableRepliesOnceIn (event : WorkerEvent) (phase : Phase) :
    Decidable (worker.RepliesOnceIn env event phase) :=
  match event, phase with
  | .serve _, .serving _ => inferInstanceAs (Decidable (_ ∧ _))
  | .serve _, .handling _ | .serve _, .polling | .retry _, _ | .poll _, _ =>
      inferInstanceAs (Decidable True)

instance (event : WorkerEvent) : Decidable (worker.RepliesOnce env event) :=
  inferInstanceAs (Decidable (worker.RepliesOnceIn env event worker.phase))

/-- A poll makes a new connection: the broker says so, or the liveness is exhausted. -/
def Reconnects : WorkerEvent → Prop
  | .poll input =>
      match input.frames with
      | some frames => commandOf frames = some mdpwDisconnect
      | none => worker.lessLively = 0
  | _ => False

instance decidableReconnects (event : WorkerEvent) : Decidable (worker.Reconnects event) :=
  match event with
  | .poll ⟨some _, _, _, _, _⟩ => inferInstanceAs (Decidable (commandOf _ = some mdpwDisconnect))
  | .poll ⟨none, _, _, _, _⟩ => inferInstanceAs (Decidable (worker.lessLively = 0))
  | .retry _ | .serve _ => inferInstanceAs (Decidable False)

/-- How many replies the worker has still to send. -/
def due : Nat := worker.postponedActions.actions.card + worker.phase.inService

end MessageWorker

/-- How many requests an event takes from the broker. -/
def WorkerEvent.taken : WorkerEvent → Nat
  | .poll input => if (input.frames.bind requestOf).isSome then 1 else 0
  | .retry _ | .serve _ => 0

/-- A reply to some client. -/
def Sent.Returns (env : WorkerEnvironment) (identity : ByteString) (sent : Sent) : Prop :=
  ∃ client, client ≠ [] ∧ 0 ∉ client ∧ MessageWorker.Sent.RepliesTo env sent identity client

/-! ## The actions of a request -/

section Batch

variable {env : WorkerEnvironment} {acts : Nat → ActInput} {queue : PostponedActionsQueue}

theorem newIds_cons_of_has {id : ByteString} (has : queue.Has id) (ids : List ByteString) :
    newIds queue (id :: ids) = newIds queue ids := by
  unfold newIds
  rw [List.toFinset_cons, Finset.filter_insert, if_neg (not_not.mpr has)]

/-- Adding an action takes its id out of the new ones. -/
theorem card_newIds_cons {pa : PostponedAction} (fresh : ¬ queue.Has pa.id)
    (ids : List ByteString) :
    (newIds queue (pa.id :: ids)).card = (newIds (queue.add pa).1 ids).card + 1 := by
  have without : newIds (queue.add pa).1 ids = (newIds queue ids).erase pa.id := by
    ext id
    simp only [newIds, Finset.mem_filter, Finset.mem_erase, has_add_fresh fresh, not_or]
    tauto
  have whole : newIds queue (pa.id :: ids) = insert pa.id (newIds queue ids) := by
    unfold newIds
    rw [List.toFinset_cons, Finset.filter_insert, if_pos fresh]
  rw [without, whole, ← Finset.card_erase_add_one (Finset.mem_insert_self _ _),
    Finset.erase_insert_eq_erase]

/-- An id that is in the queue is refused, and any other is added: either way the ids
can be read back. -/
theorem ReadsBack.add_any {pa : PostponedAction} (readsBack : ReadsBack env queue)
    (reads : readId env pa.actionMessage = .ok (some pa.id)) :
    ReadsBack env (queue.add pa).1 := by
  by_cases has : queue.Has pa.id
  · intro other isIn
    rw [PostponedActionsQueue.actions_add, if_pos has] at isIn
    exact readsBack other isIn
  · exact readsBack.add has reads

theorem card_add {pa : PostponedAction} (ids : List ByteString) :
    (queue.add pa).1.actions.card + (newIds (queue.add pa).1 ids).card =
      queue.actions.card + (newIds queue (pa.id :: ids)).card := by
  by_cases has : queue.Has pa.id
  · have same : ∀ id, (queue.add pa).1.Has id ↔ queue.Has id := by
      intro id
      rw [PostponedActionsQueue.has_iff, PostponedActionsQueue.actions_add, if_pos has,
        PostponedActionsQueue.has_iff]
    rw [newIds_cons_of_has has, PostponedActionsQueue.actions_add, if_pos has]
    unfold newIds
    simp only [same]
  · rw [card_newIds_cons has, actions_add_fresh has, Multiset.card_cons]
    omega

end Batch

namespace MessageWorker

variable {env : WorkerEnvironment} {worker next : MessageWorker}

/-- The loop over the actions of a request: the queue takes the new ids, and there are
results unless all actions are postponed. -/
theorem actOnAll_due {hdr : Header} {acts : Nat → ActInput} {batch : List (Value × Nat)}
    {answers results : List Answer} {fault : Option (Value × Fault)}
    (readsBack : ReadsBack env worker.postponedActions)
    (acted : actOnAll env hdr acts batch worker answers = (next, results, fault)) :
    ReadsBack env next.postponedActions ∧
      next.postponedActions.actions.card = worker.postponedActions.actions.card +
        (newIds worker.postponedActions (postponedIds env acts batch)).card ∧
      ((results = [] ∧ fault = none) ↔
        answers = [] ∧ ∀ entry ∈ batch, IsPostponed env acts entry) := by
  induction batch generalizing worker answers with
  | nil =>
      simp only [actOnAll, Prod.mk.injEq] at acted
      obtain ⟨rfl, rfl, rfl⟩ := acted
      exact ⟨readsBack, rfl, by simp⟩
  | cons head rest ih =>
      have spec := @actOn_spec env worker hdr (acts head.2) head.1
      rw [actOnAll] at acted
      rw [List.forall_mem_cons, IsPostponed]
      cases called : postponedId env (acts head.2) head.1 with
      | error raised =>
          rw [called] at spec
          simp only [spec, Prod.mk.injEq] at acted
          obtain ⟨rfl, rfl, rfl⟩ := acted
          have none : postponedIds env acts (head :: rest) = [] := by
            rw [postponedIds, List.takeWhile_cons, called]
            rfl
          rw [none]
          exact ⟨readsBack, rfl, by simp [Except.toOption]⟩
      | ok postponed =>
          rw [called] at spec
          obtain ⟨turned, answer, isTurned, effect⟩ := spec
          rw [isTurned] at acted
          rw [postponedIds_cons called]
          cases effect with
          | answered =>
              obtain ⟨stillReads, count, silent⟩ := ih readsBack acted
              exact ⟨stillReads, count, silent.trans (by simp [Except.toOption])⟩
          | postponed pa action _ _ reads =>
              obtain ⟨stillReads, count, silent⟩ :=
                ih (readsBack.add_any (action ▸ reads)) acted
              refine ⟨stillReads, count.trans (card_add _), silent.trans ?_⟩
              simp [Except.toOption]

/-- A request that is executed makes as many replies as it should: the actions that the
queue takes, and one with results, if any. -/
theorem execute_due {input : ServeInput} {mstr : ByteString} {executed : MessageWorker}
    {hdr : Header} {answers : List Answer} (readsBack : ReadsBack env worker.postponedActions)
    (isExecuted : worker.execute env input mstr = some (executed, hdr, answers)) :
    ReadsBack env executed.postponedActions ∧
      executed.postponedActions.actions.card + (if answers = [] then 0 else 1) =
        worker.postponedActions.actions.card +
          requestReplies env input.acts worker.postponedActions (readRequest env.library mstr) := by
  cases execute_cases isExecuted with
  | unread reads =>
      rw [reads]
      exact ⟨readsBack, rfl⟩
  | acted reads acted =>
      rw [reads, requestReplies, batchReplies]
      obtain ⟨stillReads, count, silent⟩ := actOnAll_due readsBack acted
      simp only [true_and, and_true] at silent
      refine ⟨stillReads, ?_⟩
      simp only [silent, count, add_assoc]
  | @failed _ actions _ _ _ _ reads acted _ =>
      rw [reads, requestReplies, batchReplies]
      obtain ⟨stillReads, count, silent⟩ := actOnAll_due readsBack acted
      simp only [true_and] at silent
      have some : ¬ ∀ entry ∈ actions.zipIdx, IsPostponed env input.acts entry :=
        fun all => Option.some_ne_none _ (silent.mpr all).2
      refine ⟨stillReads, ?_⟩
      rw [if_neg (by simp), if_neg some, count, add_assoc]

/-! ## Steps -/

/-- What holds of a worker between its steps: nothing is pending, what is postponed can be
read back, and clients have names. -/
structure Regular (env : WorkerEnvironment) (worker : MessageWorker) : Prop where
  reply : worker.reply = none
  expectReply : worker.expectReply = true
  readsBack : ReadsBack env worker.postponedActions
  nulFree : ∀ request, worker.phase = .serving request → 0 ∉ worker.replyTo
  named : ∀ pa ∈ worker.postponedActions.actions, pa.replyTo ≠ [] ∧ 0 ∉ pa.replyTo

/-- What a step of a worker sends, and what is due then: it takes no more than it owes. -/
inductive Progressed (env : WorkerEnvironment) (worker : MessageWorker) (event : WorkerEvent)
    (next : MessageWorker) : Prop where
  | quiet (identity : next.identity = worker.identity) (beats : List Sent)
      (journal : next.journal = worker.journal ++ beats)
      (areBeats : ∀ sent ∈ beats, sent = bare worker.identity mdpwHeartbeat)
      (due : next.due = worker.due + event.taken)
  | replied (identity : next.identity = worker.identity) (sent : Sent)
      (journal : next.journal = worker.journal ++ [sent])
      (returns : sent.Returns env worker.identity)
      (due : next.due + 1 = worker.due + event.taken)
  | reconnected (input : PollInput) (isPoll : event = .poll input)
      (reconnects : worker.Reconnects event) (identity : next.identity = input.identity)
      (beats : List Sent)
      (journal : next.journal = worker.journal ++ bare input.identity mdpwReady :: beats)
      (areBeats : ∀ sent ∈ beats, sent = bare input.identity mdpwHeartbeat)
      (due : next.due = worker.due) (taken : event.taken = 0)

/-- The client of a request is a C string. -/
theorem requestOf_nulFree {frames : List ByteString} {client : ByteString} {request : Zmsg}
    (read : requestOf frames = some (client, request)) : 0 ∉ client := by
  rw [requestOf] at read
  split at read
  next part rest _ =>
    split at read
    next =>
      have isClient : (Zmsg.unwrap ⟨rest⟩).1 = client := congrArg Prod.fst (Option.some.inj read)
      exact isClient ▸ Zmsg.zero_not_mem_unwrap _
    next => contradiction
  next => contradiction

theorem Regular.retried {top : PostponedAction} {input : ActInput}
    (regular : worker.Regular env)
    (isTop : top ∈ worker.postponedActions.actions) (retried : Retried env worker top next) :
    next.Regular env ∧ Progressed env worker (.retry input) next := by
  have reads := regular.readsBack top isTop
  have named := regular.named top isTop
  cases retried with
  | again now =>
      obtain ⟨rest, before, after⟩ := PostponedActionsQueue.actions_decrement now isTop
      refine ⟨⟨regular.reply, regular.expectReply, ?_, regular.nulFree, ?_⟩,
        .quiet rfl [] (List.append_nil _).symm nofun ?_⟩
      · exact PostponedActionsQueue.forall_decrement now isTop id regular.readsBack
      · exact PostponedActionsQueue.forall_decrement now isTop id regular.named
      · unfold due WorkerEvent.taken
        rw [after, before, Multiset.card_cons, Multiset.card_cons, add_zero]
  | @answered sent result identity isAnswered carries _ =>
      have before := PostponedActionsQueue.actions_removeById isTop
      obtain ⟨body, printed, isMsg⟩ := carries
      refine ⟨⟨regular.reply, regular.expectReply, ?_, regular.nulFree, ?_⟩,
        .replied rfl sent rfl ⟨top.replyTo, named.1, named.2, identity, body, ⟨_, printed⟩, isMsg⟩
          ?_⟩
      · exact fun pa isIn => regular.readsBack pa (PostponedActionsQueue.mem_removeById isIn)
      · exact fun pa isIn => regular.named pa (PostponedActionsQueue.mem_removeById isIn)
      · unfold due WorkerEvent.taken
        rw [before, Multiset.card_cons]
        dsimp only
        omega

/-- A poll that makes no connection and takes no request sends heartbeats at most. -/
theorem poll_keeps {input : PollInput} (noRequest : input.frames.bind requestOf = none)
    (keeps : ¬ worker.Reconnects (.poll input)) (polled : worker.poll env input = some next) :
    ∃ liveness, beat env { worker with liveness := liveness } input = some next := by
  rw [poll] at polled
  obtain ⟨frames, identity, connect, beatAt, handle⟩ := input
  cases frames with
  | none =>
      have alive : ¬ worker.lessLively = 0 := keeps
      dsimp only [expire] at polled
      rw [lessLively] at alive
      rw [if_neg alive] at polled
      exact ⟨_, polled⟩
  | some frames =>
      have noDisconnect : ¬ commandOf frames = some mdpwDisconnect := keeps
      dsimp only [Option.bind_some] at noRequest polled
      rw [receive] at polled
      rw [requestOf] at noRequest
      rw [commandOf] at noDisconnect
      generalize Zmsg.recv frames = msg at polled noRequest noDisconnect
      obtain ⟨parts⟩ := msg
      rcases parts with _ | ⟨empty, _ | ⟨header, _ | ⟨part, rest⟩⟩⟩
      case nil => simp [Zmsg.parts] at polled
      case cons.nil => simp [Zmsg.parts] at polled
      case cons.cons.nil => simp [Zmsg.parts] at polled
      case cons.cons.cons =>
          have long : ¬ Zmsg.parts ⟨empty :: header :: part :: rest⟩ < 3 := by simp [Zmsg.parts]
          rw [if_neg long] at polled
          change (if empty ≠ [] then none else if header ≠ mdpwWorker then none else
            obey env { worker with liveness := env.heartbeatLiveness } _ (cStr part) ⟨rest⟩) =
              some next at polled
          split at polled
          next => contradiction
          split at polled
          next => contradiction
          have notRequest : cStr part ≠ mdpwRequest := by
            intro isRequest
            simp [isRequest] at noRequest
          have notDisconnect : cStr part ≠ mdpwDisconnect :=
            fun isDisconnect => noDisconnect (congrArg some isDisconnect)
          rw [obey, if_neg notRequest, if_neg notDisconnect, ite_self] at polled
          exact ⟨_, polled⟩

theorem Regular.polled {input : PollInput} (regular : worker.Regular env)
    (polling : worker.phase = .polling) (polled : worker.poll env input = some next) :
    next.Regular env ∧ Progressed env worker (.poll input) next := by
  have spec := poll_spec polled
  have before : worker.due = worker.postponedActions.actions.card := by
    rw [due, polling]
    rfl
  have keeps : ReadsBack env next.postponedActions ∧
      ∀ pa ∈ next.postponedActions.actions, pa.replyTo ≠ [] ∧ 0 ∉ pa.replyTo := by
    rw [spec.postponedActions]
    exact ⟨regular.readsBack, regular.named⟩
  have request := spec.request
  cases isRequest : input.frames.bind requestOf with
  | some found =>
      rw [isRequest] at request
      obtain ⟨isClient, phase, identity, journal⟩ := request
      obtain ⟨frames, _, read⟩ := Option.bind_eq_some_iff.mp isRequest
      have nulFree : 0 ∉ next.replyTo := isClient ▸ requestOf_nulFree read
      refine ⟨⟨spec.reply.trans regular.reply, spec.expectReply.trans regular.expectReply,
        keeps.1, fun _ _ => nulFree, keeps.2⟩,
        .quiet identity [] (by rw [journal, List.append_nil]) nofun ?_⟩
      rw [before, due, phase, spec.postponedActions, WorkerEvent.taken, isRequest]
      rfl
  | none =>
      rw [isRequest] at request
      obtain ⟨⟨now, phase⟩, sends⟩ := request
      have taken : (WorkerEvent.poll input).taken = 0 := by
        rw [WorkerEvent.taken, isRequest]
        rfl
      have after : next.due = worker.due := by
        rw [before, due, phase, spec.postponedActions]
        rfl
      refine ⟨⟨spec.reply.trans regular.reply, spec.expectReply.trans regular.expectReply,
        keeps.1, ?_, keeps.2⟩, ?_⟩
      · rw [phase]
        nofun
      · by_cases reconnects : worker.Reconnects (.poll input)
        · cases sends with
          | stays identity beats journal quiet =>
              exact .quiet identity beats journal quiet (by rw [after, taken, add_zero])
          | reconnects identity beats journal quiet =>
              exact .reconnected input rfl reconnects identity beats journal quiet after taken
        · obtain ⟨liveness, beaten⟩ := poll_keeps isRequest reconnects polled
          obtain ⟨beats, heartbeatAt, quiet, rfl⟩ := beat_spec beaten
          exact .quiet rfl beats rfl quiet (by rw [after, taken, add_zero])

theorem Regular.served {input : ServeInput} {request : Zmsg} (regular : worker.Regular env)
    (serving : worker.phase = .serving request)
    (once : worker.RepliesOnce env (.serve input))
    (served : worker.serve env input request = some next) :
    next.Regular env ∧ Progressed env worker (.serve input) next := by
  rw [RepliesOnce, serving] at once
  obtain ⟨named, once⟩ := once
  obtain ⟨body, executed, hdr, answers, isBody, isExecuted, effect⟩ :=
    serve_spec regular.reply regular.expectReply named served
  rw [isBody, Option.getD_some] at once
  obtain ⟨readsBack, count⟩ := execute_due regular.readsBack isExecuted
  have postpones := execute_postpones isExecuted
  have nulFree := regular.nulFree request serving
  obtain ⟨now, phase⟩ := effect.phase
  have before : worker.due = worker.postponedActions.actions.card + 1 := by
    rw [due, serving]
    rfl
  have after : next.due = executed.postponedActions.actions.card := by
    rw [due, phase, effect.postponedActions]
    rfl
  rw [once] at count
  refine ⟨⟨effect.reply, effect.expectReply, effect.postponedActions ▸ readsBack, ?_, ?_⟩, ?_⟩
  · rw [phase]
    nofun
  · rw [effect.postponedActions]
    intro pa member
    cases postpones pa member with
    | inl old => exact regular.named pa old
    | inr isClient => exact isClient ▸ ⟨named, nulFree⟩
  · by_cases silent : answers = []
    · rw [if_pos silent] at count
      exact .quiet effect.identity [] (by rw [effect.silent silent, List.append_nil]) nofun
        (by rw [before, after, ← count]; rfl)
    · rw [if_neg silent] at count
      obtain ⟨sent, journal, identity, _, body, printed, isMsg⟩ := effect.replied silent
      exact .replied effect.identity sent journal
        ⟨worker.replyTo, named, nulFree, identity, body, ⟨_, printed⟩, isMsg⟩
        (by rw [before, after, count]; rfl)

/-- Every step of a worker sends what is due, as long as its requests make one reply. -/
theorem Regular.step {event : WorkerEvent} (regular : worker.Regular env)
    (once : worker.RepliesOnce env event) (stepped : worker.step env event = some next) :
    next.Regular env ∧ Progressed env worker event next := by
  rcases step_cases stepped with ⟨input, now, rfl, phase, handled⟩ |
    ⟨input, rfl, polling, polled⟩ | ⟨input, request, rfl, serving, served⟩
  · rcases handlePostponedAction_cases handled with rfl | ⟨top, isTop, retried⟩
    · refine ⟨⟨regular.reply, regular.expectReply, regular.readsBack, nofun, regular.named⟩,
        .quiet rfl [] (List.append_nil _).symm nofun ?_⟩
      unfold due
      rw [phase]
      rfl
    · exact regular.retried isTop (retry_spec (regular.readsBack top isTop) retried)
  · exact regular.polled polling polled
  · exact regular.served serving once served

/-- A worker starts with nothing due. -/
theorem regular_start {identity : ByteString} {connect handle : Int}
    (started : start env identity connect handle = some worker) :
    worker.Regular env ∧ worker.identity = identity ∧ worker.due = 0 ∧
      worker.journal = [bare identity mdpwReady] := by
  obtain ⟨heartbeatAt, now, rfl⟩ := start_spec started
  refine ⟨⟨rfl, rfl, ?_, nofun, ?_⟩, rfl, rfl, rfl⟩
  · exact fun pa isIn => absurd isIn (Multiset.notMem_zero pa)
  · exact fun pa isIn => absurd isIn (Multiset.notMem_zero pa)

end MessageWorker

end Cdcm.Backend
