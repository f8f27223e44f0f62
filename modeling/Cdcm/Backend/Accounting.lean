import Cdcm.Backend.WorkerEffects
import Cdcm.Lib.Machine
import Cdcm.Protocol.JsonText

/-!
# Accounting for actions

Every action that a worker is asked for should either be answered, by one result
in a reply to its client under its header, or wait in the queue.  The queue keeps
one action for an id only, and an exception skips the rest of a request: the
accounts balance as long as no id is postponed twice and only the last action of a
request fails.
-/

namespace Cdcm.Backend

open Json Protocol Zmq Machine

/-- An action that a client asks for under a header. -/
structure Asked where
  client : ByteString
  hdr : Header
  action : Value

/-- The elements of `msgs`, whatever else is in the body. -/
def requestedActions (library : Library) (mstr : ByteString) : List Value :=
  match library.fromString mstr with
  | some (.object members) =>
      match members.lookup (text "msgs") with
      | some (.array actions) => actions
      | _ => []
  | _ => []

/-- The header of a request, as far as it can be read. -/
def requestHeader (library : Library) (mstr : ByteString) : Header :=
  match readRequest library mstr with
  | .ok (hdr, _) => hdr
  | .error _ => .new

/-- What a request of a client asks for. -/
def askedBy (library : Library) (client : ByteString) (request : Zmsg) : Multiset Asked :=
  let mstr := cStr (request.body.getD [])
  ↑((requestedActions library mstr).map fun action : Value =>
    (⟨client, requestHeader library mstr, action⟩ : Asked))

/-- What a message of the broker asks for. -/
def WorkerEvent.asked (library : Library) : WorkerEvent → Multiset Asked
  | .poll input =>
      match input.frames.bind requestOf with
      | some (client, request) => askedBy library client request
      | none => 0
  | .retry _ | .serve _ => 0

/-- What the events of a run ask for. -/
def askedIn (library : Library) (events : List WorkerEvent) : Multiset Asked :=
  (events.map (WorkerEvent.asked library)).sum

/-- The actions that results answer. -/
def Answer.asked (client : ByteString) (hdr : Header) (answers : List Answer) :
    Multiset Asked :=
  ↑(answers.filterMap fun answer => answer.action.map fun action : Value =>
    (⟨client, hdr, action⟩ : Asked))

/-- The actions that a message answers. -/
def Sent.asked (sent : Sent) : Multiset Asked :=
  match sent.answered with
  | some answered => Answer.asked answered.client answered.hdr answered.answers
  | none => 0

/-- What a postponed action was asked for. -/
def PostponedAction.asked (pa : PostponedAction) : Asked :=
  ⟨pa.replyTo, pa.header, pa.actionMessage⟩

/-- The ids under which actions of a request are postponed, up to a fault. -/
def postponedIds (env : WorkerEnvironment) (acts : Nat → ActInput)
    (batch : List (Value × Nat)) : List ByteString :=
  (batch.takeWhile fun entry => (postponedId env (acts entry.2) entry.1).isOk).filterMap
    fun entry => (postponedId env (acts entry.2) entry.1).toOption.join

/-- Only the last action may fail, and the ids that are postponed differ from each
other and from those in the queue. -/
def BatchAccountable (env : WorkerEnvironment) (acts : Nat → ActInput)
    (queue : PostponedActionsQueue) (batch : List (Value × Nat)) : Prop :=
  (∀ entry ∈ batch.dropLast, (postponedId env (acts entry.2) entry.1).isOk = true) ∧
    (postponedIds env acts batch).Nodup ∧
    ∀ id ∈ postponedIds env acts batch, ¬ queue.Has id

/-- The actions of a request can all be accounted for; a request that cannot be read
contains none. -/
def ReadAccountable (env : WorkerEnvironment) (acts : Nat → ActInput)
    (queue : PostponedActionsQueue) (mstr : ByteString) :
    Except Fault (Header × List Value) → Prop
  | .ok (_, actions) => BatchAccountable env acts queue actions.zipIdx
  | .error _ => (requestedActions env.library mstr).isEmpty = true

instance (env : WorkerEnvironment) (acts : Nat → ActInput) (queue : PostponedActionsQueue)
    (batch : List (Value × Nat)) : Decidable (BatchAccountable env acts queue batch) :=
  inferInstanceAs (Decidable (_ ∧ _ ∧ _))

instance (env : WorkerEnvironment) (acts : Nat → ActInput) (queue : PostponedActionsQueue)
    (mstr : ByteString) (read : Except Fault (Header × List Value)) :
    Decidable (ReadAccountable env acts queue mstr read) :=
  match read with
  | .ok (_, actions) =>
      inferInstanceAs (Decidable (BatchAccountable env acts queue actions.zipIdx))
  | .error _ => inferInstanceAs (Decidable (_ = true))

namespace MessageWorker

/-- What has been answered so far. -/
def answered (worker : MessageWorker) : Multiset Asked :=
  (worker.journal.map Sent.asked).sum

/-- What waits in the queue. -/
def pending (worker : MessageWorker) : Multiset Asked :=
  worker.postponedActions.actions.map PostponedAction.asked

/-- What the request that is being served asks for. -/
def inService (library : Library) (worker : MessageWorker) : Multiset Asked :=
  match worker.phase with
  | .serving request => askedBy library worker.replyTo request
  | .handling _ | .polling => 0

/-- In a phase, an event serves no request, or one of a client whose actions can all
be accounted for. -/
def AccountableIn (env : WorkerEnvironment) (worker : MessageWorker) :
    WorkerEvent → Phase → Prop
  | .serve input, .serving request =>
      worker.replyTo ≠ [] ∧
        ReadAccountable env input.acts worker.postponedActions
          (cStr (request.body.getD [])) (readRequest env.library (cStr (request.body.getD [])))
  | _, _ => True

/-- A request that is served has a client, and its actions can all be accounted
for. -/
def Accountable (env : WorkerEnvironment) (worker : MessageWorker) (event : WorkerEvent) :
    Prop :=
  worker.AccountableIn env event worker.phase

instance (env : WorkerEnvironment) (worker : MessageWorker) (event : WorkerEvent)
    (phase : Phase) : Decidable (worker.AccountableIn env event phase) :=
  match event, phase with
  | .serve _, .serving _ => inferInstanceAs (Decidable (_ ∧ _))
  | .serve _, .handling _ | .serve _, .polling | .retry _, _ | .poll _, _ =>
      inferInstanceAs (Decidable True)

instance (env : WorkerEnvironment) (worker : MessageWorker) (event : WorkerEvent) :
    Decidable (worker.Accountable env event) :=
  inferInstanceAs (Decidable (worker.AccountableIn env event worker.phase))

end MessageWorker

/-! ## Requests that can be read -/

theorem requestedActions_eq {library : Library} {mstr : ByteString} {hdr : Header}
    {actions : List Value} (read : readRequest library mstr = .ok (hdr, actions)) :
    requestedActions library mstr = actions := by
  rw [readRequest] at read
  cases parsed : library.fromString mstr with
  | none => rw [parsed] at read; contradiction
  | some body =>
      rw [parsed] at read
      simp only [bind_eq_ok, Value.getObject_eq_ok, Object.at_eq_ok, Value.getArray_eq_ok]
        at read
      obtain ⟨members, rfl, _, _, _, _, _, msgs, _, rfl, ⟨⟩⟩ := read
      rw [requestedActions, parsed]
      simp only [msgs]

theorem askedBy_of_read {library : Library} {client : ByteString} {request : Zmsg}
    {hdr : Header} {actions : List Value}
    (read : readRequest library (cStr (request.body.getD [])) = .ok (hdr, actions)) :
    askedBy library client request = ↑(actions.map fun action : Value =>
      (⟨client, hdr, action⟩ : Asked)) := by
  have header : requestHeader library (cStr (request.body.getD [])) = hdr := by
    rw [requestHeader, read]
  rw [askedBy, requestedActions_eq read, header]

/-! ## One request -/

/-- Behind an action that does not fail, the ids go on. -/
theorem postponedIds_cons {env : WorkerEnvironment} {acts : Nat → ActInput}
    {postponed : Option ByteString} {head : Value × Nat} {rest : List (Value × Nat)}
    (called : postponedId env (acts head.2) head.1 = .ok postponed) :
    postponedIds env acts (head :: rest) = postponed.toList ++ postponedIds env acts rest := by
  rw [postponedIds, List.takeWhile_cons, called]
  cases postponed <;> simp [Except.isOk, Except.toBool, called, Except.toOption, postponedIds]

theorem BatchAccountable.tail {env : WorkerEnvironment} {acts : Nat → ActInput}
    {queue : PostponedActionsQueue} {head : Value × Nat} {rest : List (Value × Nat)}
    {postponed : Option ByteString}
    (ok : postponedId env (acts head.2) head.1 = .ok postponed)
    (accountable : BatchAccountable env acts queue (head :: rest)) :
    BatchAccountable env acts queue rest ∧
      ∀ id ∈ postponed, ¬ queue.Has id ∧ id ∉ postponedIds env acts rest := by
  obtain ⟨faults, nodup, fresh⟩ := accountable
  rw [postponedIds_cons ok] at nodup fresh
  have restOk : ∀ entry ∈ rest.dropLast,
      (postponedId env (acts entry.2) entry.1).isOk = true := by
    intro entry member
    refine faults entry ?_
    rw [List.dropLast_cons_of_ne_nil (by rintro rfl; simp at member)]
    exact List.mem_cons_of_mem _ member
  refine ⟨⟨restOk, (List.nodup_append.mp nodup).2.1,
    fun id member => fresh id (List.mem_append_right _ member)⟩, ?_⟩
  rintro id ⟨⟩
  refine ⟨fresh id (List.mem_append_left _ (by simp)), ?_⟩
  exact (List.nodup_cons.mp nodup).1

/-- A fault is at the last action. -/
theorem BatchAccountable.rest_nil {env : WorkerEnvironment} {acts : Nat → ActInput}
    {queue : PostponedActionsQueue} {head : Value × Nat} {rest : List (Value × Nat)}
    {fault : Fault} (failed : postponedId env (acts head.2) head.1 = .error fault)
    (accountable : BatchAccountable env acts queue (head :: rest)) : rest = [] := by
  by_contra more
  have headOk := accountable.1 head (by
    rw [List.dropLast_cons_of_ne_nil more]
    exact List.mem_cons_self)
  rw [failed] at headOk
  contradiction

/-- Every postponed action can be found again under its id. -/
def ReadsBack (env : WorkerEnvironment) (queue : PostponedActionsQueue) : Prop :=
  ∀ pa ∈ queue.actions, readId env pa.actionMessage = .ok (some pa.id)

/-- What the queue holds when an action with a new id is added. -/
theorem actions_add_fresh {queue : PostponedActionsQueue} {pa : PostponedAction}
    (fresh : ¬ queue.Has pa.id) : (queue.add pa).1.actions = pa ::ₘ queue.actions := by
  rw [PostponedActionsQueue.actions_add, if_neg fresh]

theorem has_add_fresh {queue : PostponedActionsQueue} {pa : PostponedAction}
    (fresh : ¬ queue.Has pa.id) {id : ByteString} :
    (queue.add pa).1.Has id ↔ id = pa.id ∨ queue.Has id := by
  rw [PostponedActionsQueue.has_iff, PostponedActionsQueue.has_iff, actions_add_fresh fresh]
  simp only [Multiset.mem_cons, or_and_right, exists_or, exists_eq_left]
  exact or_congr_left eq_comm

theorem ReadsBack.add {env : WorkerEnvironment} {queue : PostponedActionsQueue}
    {pa : PostponedAction} (readsBack : ReadsBack env queue) (fresh : ¬ queue.Has pa.id)
    (reads : readId env pa.actionMessage = .ok (some pa.id)) :
    ReadsBack env (queue.add pa).1 := by
  intro other isIn
  rw [actions_add_fresh fresh, Multiset.mem_cons] at isIn
  rcases isIn with rfl | isIn
  · exact reads
  · exact readsBack other isIn

/-- An added action does not take the ids of the rest. -/
theorem BatchAccountable.add {env : WorkerEnvironment} {acts : Nat → ActInput}
    {queue : PostponedActionsQueue} {pa : PostponedAction} {rest : List (Value × Nat)}
    (accountable : BatchAccountable env acts queue rest) (fresh : ¬ queue.Has pa.id)
    (apart : pa.id ∉ postponedIds env acts rest) :
    BatchAccountable env acts (queue.add pa).1 rest := by
  obtain ⟨faults, nodup, allFresh⟩ := accountable
  refine ⟨faults, nodup, fun id member has => ?_⟩
  cases (has_add_fresh fresh).mp has with
  | inl same => exact apart (same ▸ member)
  | inr isIn => exact allFresh id member isIn

theorem Answer.asked_append (client : ByteString) (hdr : Header) (front back : List Answer) :
    Answer.asked client hdr (front ++ back) =
      Answer.asked client hdr front + Answer.asked client hdr back := by
  simp [Answer.asked, List.filterMap_append]

theorem Answer.asked_singleton (client : ByteString) (hdr : Header) (action : Value)
    (result : ResultMsg) :
    Answer.asked client hdr [⟨some action, result⟩] = {⟨client, hdr, action⟩} := rfl

namespace MessageWorker

variable {env : WorkerEnvironment} {worker next : MessageWorker}

/-- The loop over the actions of a request accounts for each of them: it has a
result, it waits in the queue, or it is the one at which a fault ended the loop. -/
theorem actOnAll_accounts {hdr : Header} {acts : Nat → ActInput} {batch : List (Value × Nat)}
    {answers results : List Answer} {fault : Option (Value × Fault)}
    (accountable : BatchAccountable env acts worker.postponedActions batch)
    (readsBack : ReadsBack env worker.postponedActions)
    (named : ∀ answer ∈ answers, answer.Names env)
    (acted : actOnAll env hdr acts batch worker answers = (next, results, fault)) :
    (Answer.asked worker.replyTo hdr results + next.pending +
        ↑(fault.toList.map fun entry => (⟨worker.replyTo, hdr, entry.1⟩ : Asked)) =
      Answer.asked worker.replyTo hdr answers + worker.pending +
        ↑(batch.map fun entry => (⟨worker.replyTo, hdr, entry.1⟩ : Asked))) ∧
      ReadsBack env next.postponedActions ∧ ∀ answer ∈ results, answer.Names env := by
  induction batch generalizing worker answers with
  | nil =>
      simp only [actOnAll, Prod.mk.injEq] at acted
      obtain ⟨rfl, rfl, rfl⟩ := acted
      exact ⟨rfl, readsBack, named⟩
  | cons head rest ih =>
      have spec := @actOn_spec env worker hdr (acts head.2) head.1
      rw [actOnAll] at acted
      cases called : postponedId env (acts head.2) head.1 with
      | error raised =>
          rw [called] at spec
          simp only [spec, Prod.mk.injEq] at acted
          obtain ⟨rfl, rfl, rfl⟩ := acted
          obtain rfl := accountable.rest_nil called
          exact ⟨rfl, readsBack, named⟩
      | ok postponed =>
          rw [called] at spec
          obtain ⟨turned, answer, isTurned, effect⟩ := spec
          rw [isTurned] at acted
          obtain ⟨tail, fresh⟩ := accountable.tail called
          cases effect with
          | @answered result names =>
              have all : ∀ other ∈ answers ++ [⟨some head.1, result⟩], other.Names env :=
                fun other member => (List.mem_append.mp member).elim (named other)
                  fun last => List.mem_singleton.mp last ▸ names
              obtain ⟨accounts, rest⟩ := ih tail readsBack all acted
              refine ⟨accounts.trans ?_, rest⟩
              rw [Answer.asked_append, List.map_cons, ← Multiset.cons_coe, Answer.asked_singleton,
                ← Multiset.singleton_add]
              ac_rfl
          | postponed pa action replyTo header reads =>
              have isFresh : ¬ worker.postponedActions.Has pa.id := (fresh pa.id rfl).1
              have stillReads : ReadsBack env (worker.postponedActions.add pa).1 :=
                readsBack.add isFresh (action ▸ reads)
              obtain ⟨accounts, rest⟩ :=
                ih (tail.add isFresh (fresh pa.id rfl).2) stillReads (by simpa using named) acted
              refine ⟨accounts.trans ?_, rest⟩
              have tag : pa.asked = ⟨worker.replyTo, hdr, head.1⟩ := by
                rw [PostponedAction.asked, action, replyTo, header]
              rw [pending, actions_add_fresh isFresh, Multiset.map_cons, tag, List.append_nil,
                List.map_cons,
                ← Multiset.cons_coe, ← Multiset.singleton_add, ← Multiset.singleton_add, pending]
              ac_rfl

/-- A request that is executed is accounted for. -/
theorem execute_accounts {input : ServeInput} {request : Zmsg} {executed : MessageWorker}
    {hdr : Header} {answers : List Answer} (serving : worker.phase = .serving request)
    (accountable : worker.Accountable env (.serve input))
    (readsBack : ReadsBack env worker.postponedActions)
    (isExecuted : worker.execute env input (cStr (request.body.getD [])) =
      some (executed, hdr, answers)) :
    Answer.asked worker.replyTo hdr answers + executed.pending =
        worker.pending + worker.inService env.library ∧
      ReadsBack env executed.postponedActions ∧ ∀ answer ∈ answers, answer.Names env := by
  rw [Accountable, serving] at accountable
  obtain ⟨_, accountable⟩ := accountable
  simp only [inService, serving]
  have batch (hdr : Header) (actions : List Value) :
      actions.zipIdx.map (fun entry => (⟨worker.replyTo, hdr, entry.1⟩ : Asked)) =
        actions.map fun action : Value => (⟨worker.replyTo, hdr, action⟩ : Asked) := by
    conv_rhs => rw [← List.zipIdx_map_fst 0 actions, List.map_map]
    rfl
  have noAnswers (hdr : Header) : Answer.asked worker.replyTo hdr [] = 0 := rfl
  cases execute_cases isExecuted with
  | unread reads =>
      rw [reads] at accountable
      have nothing : askedBy env.library worker.replyTo request = 0 := by
        rw [askedBy, List.isEmpty_iff.mp accountable]
        rfl
      rw [nothing, add_zero]
      refine ⟨zero_add _, readsBack, fun answer member => ?_⟩
      rw [List.mem_singleton.mp member]
      exact fun _ asks => by cases asks
  | acted reads acted =>
      rw [reads] at accountable
      rw [askedBy_of_read reads]
      obtain ⟨accounts, stillReads, named⟩ :=
        actOnAll_accounts accountable readsBack (by simp) acted
      rw [batch, noAnswers, zero_add] at accounts
      exact ⟨by simpa using accounts, stillReads, named⟩
  | failed reads acted malformed =>
      rw [reads] at accountable
      rw [askedBy_of_read reads]
      obtain ⟨accounts, stillReads, named⟩ :=
        actOnAll_accounts accountable readsBack (by simp) acted
      rw [batch, noAnswers, zero_add] at accounts
      refine ⟨?_, stillReads, fun answer member => ?_⟩
      · rw [← accounts, Answer.asked_append, Answer.asked_singleton]
        simp only [Option.toList_some, List.map_cons, List.map_nil, Multiset.coe_singleton]
        ac_rfl
      · rcases List.mem_append.mp member with old | new
        · exact named answer old
        · rw [List.mem_singleton.mp new]
          rintro _ ⟨⟩
          exact .inr (.inr (malformedResult_id malformed))

/-- What holds of a worker along a run: its accounts balance with what it was asked
for, and every message with results carries them. -/
structure Balanced (env : WorkerEnvironment) (asked : Multiset Asked)
    (worker : MessageWorker) : Prop where
  accounts : asked = worker.answered + worker.pending + worker.inService env.library
  readsBack : ReadsBack env worker.postponedActions
  reply : worker.reply = none
  expectReply : worker.expectReply = true
  carried : ∀ sent ∈ worker.journal, ∀ answered ∈ sent.answered, sent.Carries env answered ∧
    ∀ answer ∈ answered.answers, answer.Names env

/-- A message that carries its results is sent. -/
theorem Balanced.carried_append {entry : Sent} {answered : Answered}
    (balanced : Balanced env asked worker) (isAnswered : entry.answered = some answered)
    (carries : entry.Carries env answered) (named : ∀ answer ∈ answered.answers, answer.Names env) :
    ∀ sent ∈ worker.journal ++ [entry], ∀ answered ∈ sent.answered,
      sent.Carries env answered ∧ ∀ answer ∈ answered.answers, answer.Names env := by
  intro sent member other isCarried
  rcases List.mem_append.mp member with old | new
  · exact balanced.carried sent old other isCarried
  · obtain rfl := List.mem_singleton.mp new
    rw [isAnswered] at isCarried
    obtain rfl := Option.some.inj isCarried
    exact ⟨carries, named⟩

/-- Sending messages without results answers nothing. -/
theorem answered_of_bare {sent : List Sent} (journal : next.journal = worker.journal ++ sent)
    (bares : ∀ entry ∈ sent, entry.answered = none) : next.answered = worker.answered := by
  have zero : (sent.map Sent.asked).sum = 0 := by
    refine List.sum_eq_zero fun counted member => ?_
    obtain ⟨entry, isIn, rfl⟩ := List.mem_map.mp member
    rw [Sent.asked, bares entry isIn]
  rw [answered, journal, List.map_append, List.sum_append, zero, add_zero]
  rfl

/-- Sending results answers their actions. -/
theorem answered_append {sent : Sent} {answered : Answered}
    (journal : next.journal = worker.journal ++ [sent]) (carried : sent.answered = some answered) :
    next.answered =
      worker.answered + Answer.asked answered.client answered.hdr answered.answers := by
  rw [MessageWorker.answered, journal, List.map_append, List.sum_append, List.map_singleton,
    List.sum_singleton, Sent.asked, carried]
  rfl

variable {asked : Multiset Asked}

theorem Balanced.retried {top : PostponedAction} (balanced : Balanced env asked worker)
    (isTop : top ∈ worker.postponedActions.actions) (retried : Retried env worker top next) :
    Balanced env asked next := by
  have reads := balanced.readsBack top isTop
  cases retried with
  | again now =>
      obtain ⟨rest, before, after⟩ := PostponedActionsQueue.actions_decrement now isTop
      refine ⟨balanced.accounts.trans ?_, ?_, balanced.reply, balanced.expectReply,
        balanced.carried⟩
      · have same : Multiset.map PostponedAction.asked
            (worker.postponedActions.decrementRunsAndUpdateExpiration now top.id).1.actions =
              worker.pending := by
          rw [pending, before, after, Multiset.map_cons, Multiset.map_cons]
          rfl
        exact congrArg (fun waits => worker.answered + waits + worker.inService env.library)
          same.symm
      · exact PostponedActionsQueue.forall_decrement now isTop id balanced.readsBack
  | @answered sent result identity isAnswered carries named =>
      have before := PostponedActionsQueue.actions_removeById isTop
      refine ⟨balanced.accounts.trans ?_, ?_, balanced.reply, balanced.expectReply, ?_⟩
      · have waits : worker.pending = {top.asked} +
            ((worker.postponedActions.removeById top.id).1.actions.map PostponedAction.asked) := by
          rw [pending, before, Multiset.map_cons, Multiset.singleton_add]
        have answers := @answered_append worker { worker with
          journal := worker.journal ++ [sent]
          postponedActions := (worker.postponedActions.removeById top.id).1 } _ _ rfl isAnswered
        rw [answers, Answer.asked_singleton, waits]
        change _ = worker.answered + {top.asked} +
          (worker.postponedActions.removeById top.id).1.actions.map PostponedAction.asked +
            worker.inService env.library
        ac_rfl
      · intro pa isIn
        exact balanced.readsBack pa (before ▸ Multiset.mem_cons_of_mem isIn)
      · apply balanced.carried_append isAnswered carries
        intro answer isAnswer
        rw [List.mem_singleton.mp isAnswer]
        rintro _ ⟨⟩
        exact .inl (named ▸ reads)

theorem Balanced.polled {input : PollInput} (balanced : Balanced env asked worker)
    (polling : worker.phase = .polling) (polled : Polled worker input next) :
    Balanced env (asked + (WorkerEvent.poll input).asked env.library) next := by
  have accounts := balanced.accounts
  have notServing : worker.inService env.library = 0 := by rw [inService, polling]
  have waits : next.pending = worker.pending := by
    rw [pending, polled.postponedActions, pending]
  rw [notServing, add_zero] at accounts
  obtain ⟨postponedActions, reply, expectReply, request⟩ := polled
  rw [WorkerEvent.asked]
  cases isRequest : input.frames.bind requestOf with
  | some found =>
      obtain ⟨client, request'⟩ := found
      rw [isRequest] at request
      obtain ⟨replyTo, phase, _, journal⟩ := request
      have answers : next.answered = worker.answered := by rw [answered, journal, answered]
      have serves : next.inService env.library = askedBy env.library client request' := by
        rw [inService, phase, replyTo]
      refine ⟨?_, postponedActions ▸ balanced.readsBack, reply.trans balanced.reply,
        expectReply.trans balanced.expectReply, journal ▸ balanced.carried⟩
      rw [accounts, answers, waits, serves]
  | none =>
      rw [isRequest] at request
      obtain ⟨⟨now, phase⟩, sent⟩ := request
      have rests : next.inService env.library = 0 := by rw [inService, phase]
      obtain ⟨bares, journal, areBare⟩ : ∃ bares, next.journal = worker.journal ++ bares ∧
          ∀ entry ∈ bares, entry.answered = none := by
        cases sent with
        | stays _ beats journal quiet =>
            exact ⟨_, journal, fun entry member => by rw [quiet entry member]; rfl⟩
        | reconnects _ beats journal quiet =>
            refine ⟨_, journal, ?_⟩
            rintro entry (_ | ⟨_, member⟩)
            · rfl
            · rw [quiet entry member]
              rfl
      refine ⟨?_, postponedActions ▸ balanced.readsBack, reply.trans balanced.reply,
        expectReply.trans balanced.expectReply, ?_⟩
      · rw [accounts, answered_of_bare journal areBare, waits, rests, add_zero]
      · rw [journal]
        intro entry member answered isCarried
        rcases List.mem_append.mp member with old | new
        · exact balanced.carried entry old answered isCarried
        · rw [areBare entry new] at isCarried
          contradiction

theorem Balanced.served {input : ServeInput} {request : Zmsg}
    (balanced : Balanced env asked worker) (serving : worker.phase = .serving request)
    (accountable : worker.Accountable env (.serve input))
    (served : worker.serve env input request = some next) : Balanced env asked next := by
  have named : worker.replyTo ≠ [] := by
    have both := accountable
    rw [Accountable, serving] at both
    exact both.1
  obtain ⟨body, executed, hdr, answers, isBody, isExecuted, effect⟩ :=
    serve_spec balanced.reply balanced.expectReply named served
  have isRead : request.body.getD [] = body := by rw [isBody, Option.getD_some]
  rw [← isRead] at isExecuted
  obtain ⟨accounts, readsBack, names⟩ :=
    execute_accounts serving accountable balanced.readsBack isExecuted
  obtain ⟨now, phase⟩ := effect.phase
  have rests : next.inService env.library = 0 := by rw [inService, phase]
  have waits : next.pending = executed.pending := by
    rw [pending, effect.postponedActions, pending]
  have total : asked =
      worker.answered + Answer.asked worker.replyTo hdr answers + next.pending := by
    rw [balanced.accounts, add_assoc, ← accounts, waits, add_assoc]
  by_cases silent : answers = []
  · have journal := effect.silent silent
    have sameAnswers : next.answered = worker.answered := by rw [answered, journal, answered]
    refine ⟨?_, effect.postponedActions ▸ readsBack, effect.reply, effect.expectReply,
      journal ▸ balanced.carried⟩
    have noAnswers : Answer.asked worker.replyTo hdr [] = 0 := rfl
    rw [total, sameAnswers, rests, silent, noAnswers, add_zero, add_zero]
  · obtain ⟨sent, journal, _, isAnswered, carries⟩ := effect.replied silent
    refine ⟨?_, effect.postponedActions ▸ readsBack, effect.reply, effect.expectReply, ?_⟩
    · rw [total, answered_append journal isAnswered, rests, add_zero]
    · rw [journal]
      exact balanced.carried_append isAnswered carries names

/-- One step keeps the accounts. -/
theorem Balanced.step {event : WorkerEvent} (balanced : Balanced env asked worker)
    (accountable : worker.Accountable env event)
    (stepped : worker.step env event = some next) :
    Balanced env (asked + event.asked env.library) next := by
  rcases step_cases stepped with ⟨input, now, rfl, phase, handled⟩ |
    ⟨input, rfl, polling, polled⟩ | ⟨input, request, rfl, serving, served⟩
  · have sameAsked : asked + (WorkerEvent.retry input).asked env.library = asked := add_zero _
    rw [sameAsked]
    rcases handlePostponedAction_cases handled with rfl | ⟨top, isTop, retried⟩
    · refine ⟨balanced.accounts.trans ?_, balanced.readsBack, balanced.reply,
        balanced.expectReply, balanced.carried⟩
      simp only [inService, phase]
      rfl
    · exact balanced.retried isTop (retry_spec (balanced.readsBack top isTop) retried)
  · exact balanced.polled polling (poll_spec polled)
  · have sameAsked : asked + (WorkerEvent.serve input).asked env.library = asked := add_zero _
    rw [sameAsked]
    exact balanced.served serving accountable served

theorem balanced_start {identity : ByteString} {connect handle : Int}
    (started : start env identity connect handle = some worker) : Balanced env 0 worker := by
  obtain ⟨heartbeatAt, now, rfl⟩ := start_spec started
  refine ⟨rfl, ?_, rfl, rfl, ?_⟩
  · intro pa isIn
    exact absurd isIn (Multiset.notMem_zero pa)
  · intro entry member answered isCarried
    obtain rfl := List.mem_singleton.mp member
    contradiction

/-- Accounting: along every run whose requests can be accounted for, what was asked
for is what was answered, what waits in the queue and what is being served, each
action as often; and every message with results carries them to their client under
their header, each under the id of its action. -/
theorem actions_accounted {identity : ByteString} {connect handle : Int}
    {first : MessageWorker} {events : List WorkerEvent}
    (started : start env identity connect handle = some first)
    (run : Run (MessageWorker.step env) (Accountable env) first events worker) :
    askedIn env.library events =
        worker.answered + worker.pending + worker.inService env.library ∧
      ∀ sent ∈ worker.journal, ∀ answered ∈ sent.answered, sent.Carries env answered ∧
        ∀ answer ∈ answered.answers, answer.Names env := by
  have balanced := run.history
    (fun events state => Balanced env (askedIn env.library events) state)
    (balanced_start started) fun events state event next balanced accountable stepped => by
      rw [askedIn, List.map_append, List.sum_append, List.map_singleton, List.sum_singleton]
      exact balanced.step accountable stepped
  exact ⟨balanced.accounts, balanced.carried⟩

/-! ## Sample runs -/

/-- A worker process with the plugin `ping` that can read the given bodies. -/
def sampleWorkerEnv (bodies : List Value) : WorkerEnvironment where
  library := .ofTexts (bodies.map fun body => (body.print none 0, body))
  find key :=
    if key = text "ping" then
      some fun actionMessage => do
        let body ← actionMessage.at (text "ping")
        (← body.at (text "id")).asString
    else none
  heartbeatLiveness := 3
  heartbeatInterval := 2000
  actionPostponeDur := 1000
  actionRetriesOnPostpone := 3

/-- The broker sends a command, followed by the given frames. -/
def brokerSends (command : ByteString) (rest : List ByteString) (now : Int) : WorkerEvent :=
  .poll ⟨some ([] :: mdpwWorker :: command :: rest), text "w", now, now, now⟩

/-- A request of a client, on its way from the broker. -/
def requestFrom (client : String) (body : Value) (now : Int) : WorkerEvent :=
  brokerSends mdpwRequest [text client, [], body.print none 0] now

/-- A call that ends well, and one that is to be repeated. -/
def succeeds : ActInput :=
  ⟨.returns .succeeded ⟨some 1, text "OK", some 101⟩ (some (.string (text "pong"))), 0⟩

def postpones : ActInput := ⟨.returns .postponed ⟨none, [], none⟩ none, 0⟩

/-- A request for two actions: one is answered at once, and the other one later. -/
def pairEnv : WorkerEnvironment :=
  sampleWorkerEnv [sampleBody [pingAction "1", pingAction "2"]]

def pairEvents : List WorkerEvent :=
  [.retry postpones, requestFrom "c" (sampleBody [pingAction "1", pingAction "2"]) 0,
    .serve ⟨fun position => if position = 0 then succeeds else postpones, 5000⟩,
    .retry succeeds]

theorem actions_accounted_pair :
    ∃ first worker, start pairEnv (text "w1") 0 0 = some first ∧
      Run (MessageWorker.step pairEnv) (Accountable pairEnv) first pairEvents worker ∧
      Multiset.card worker.answered = 2 ∧
      askedIn pairEnv.library pairEvents =
        worker.answered + worker.pending + worker.inService pairEnv.library := by
  have executes : (((start pairEnv (text "w1") 0 0).bind fun first =>
      exec (MessageWorker.step pairEnv) (Accountable pairEnv) first pairEvents).any
        fun worker => Multiset.card worker.answered = 2) = true := by decide +kernel
  obtain ⟨worker, executed, both⟩ := (Option.any_eq_true _ _).mp executes
  obtain ⟨first, started, executed⟩ := Option.bind_eq_some_iff.mp executed
  have run := Run.of_exec executed
  exact ⟨first, worker, started, run, of_decide_eq_true both,
    (actions_accounted started run).1⟩

/-- Two clients ask for an action under the same id, and both are postponed. -/
def collisionEnv : WorkerEnvironment := sampleWorkerEnv [sampleBody [pingAction "1"]]

def collisionEvents : List WorkerEvent :=
  [.retry postpones, requestFrom "c1" (sampleBody [pingAction "1"]) 0,
    .serve ⟨fun _ => postpones, 0⟩, .retry postpones,
    requestFrom "c2" (sampleBody [pingAction "1"]) 0, .serve ⟨fun _ => postpones, 0⟩]

/-- The action of the second client is lost: two were asked for, and one waits. -/
theorem collision_loses :
    ∃ first worker, start collisionEnv (text "w1") 0 0 = some first ∧
      Run (MessageWorker.step collisionEnv) Unguarded first collisionEvents worker ∧
      Multiset.card (askedIn collisionEnv.library collisionEvents) = 2 ∧
      Multiset.card (worker.answered + worker.pending +
        worker.inService collisionEnv.library) = 1 := by
  have executes : (((start collisionEnv (text "w1") 0 0).bind fun first =>
      exec (MessageWorker.step collisionEnv) Unguarded first collisionEvents).any
        fun worker => Multiset.card (worker.answered + worker.pending +
          worker.inService collisionEnv.library) = 1) = true := by decide +kernel
  obtain ⟨worker, executed, one⟩ := (Option.any_eq_true _ _).mp executes
  obtain ⟨first, started, executed⟩ := Option.bind_eq_some_iff.mp executed
  exact ⟨first, worker, started, .of_exec executed, by decide +kernel, of_decide_eq_true one⟩

end MessageWorker

end Cdcm.Backend
