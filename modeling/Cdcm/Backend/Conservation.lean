import Cdcm.Backend.RepliesDue
import Cdcm.Backend.Responses

/-!
# What becomes of the actions that a worker takes

In every step, also of a run whose requests cannot all be accounted for, an action that a
worker holds stays with it, goes out in one message, or is lost: none is answered twice and
none that nobody asked for.  The one assumption is about the plugins: a call that ends an
action has set its result, so that the reply can be printed.
-/

namespace Cdcm.Backend

open Json Protocol Zmq SessionsCache

/-- A call that ends its action has set the result. -/
def ActOutcome.SetsResult : ActOutcome → Prop
  | .returns status _ result => status ≠ .postponed → result.isSome = true
  | .throws => True

instance (outcome : ActOutcome) : Decidable outcome.SetsResult :=
  match outcome with
  | .returns .. => inferInstanceAs (Decidable (_ → _))
  | .throws => inferInstanceAs (Decidable True)

/-- The calls for the actions of a request set their results. -/
def ReadSetsResults (acts : Nat → ActInput) : Except Fault (Header × List Value) → Prop
  | .ok (_, actions) => ∀ position < actions.length, (acts position).outcome.SetsResult
  | .error _ => True

instance (acts : Nat → ActInput) (read : Except Fault (Header × List Value)) :
    Decidable (ReadSetsResults acts read) :=
  match read with
  | .ok (_, actions) => inferInstanceAs (Decidable
      (∀ position < actions.length, (acts position).outcome.SetsResult))
  | .error _ => inferInstanceAs (Decidable True)

/-- Every plugin sets its result. -/
theorem outcome_setsResult (plugin : Plugin) (asset : Asset) (sess : Option Session)
    (msg : PluginMsg) : (plugin.outcome asset sess msg).SetsResult := by
  cases returns : plugin.outcome asset sess msg with
  | throws => trivial
  | returns status respStatus result =>
      intro _
      obtain ⟨exit, _, _, filled, fills, _, rfl⟩ := outcome_eq_returns returns
      cases response : exit.response with
      | success data | res data =>
          rw [response] at fills
          obtain rfl := Option.some.inj fills
          rfl
      | error cdcmError =>
          rw [response] at fills
          exact (setResponseForError_spec fills).2
      | uniqueError cdcmError errorCode errMsg =>
          rw [response] at fills
          simp only [Response.fill, ResultMsg.setResponseForErrorWithUniqueCodeOrMsg,
            Option.bind_eq_bind, Option.bind_eq_some_iff, Option.pure_def, Option.some.injEq,
            Prod.exists] at fills
          obtain ⟨_, _, _, _, _, _, rfl⟩ := fills
          rfl

namespace MessageWorker

variable {env : WorkerEnvironment} {worker next : MessageWorker}

/-! ## Results that are set -/

/-- The result of one action is set. -/
theorem actOn_setsResult {hdr : Header} {input : ActInput} {action : Value}
    {answers : List Answer} (sets : input.outcome.SetsResult)
    (acted : worker.actOn env hdr input action = .ok (next, answers)) :
    ∀ answer ∈ answers, answer.result.result.isSome = true := by
  simp only [actOn, bind_eq_ok] at acted
  obtain ⟨found, _, acted⟩ := acted
  cases found with
  | none =>
      dsimp only at acted
      split at acted
      next result malformed =>
        obtain ⟨_, rfl⟩ := Prod.mk.inj (Except.ok.inj acted)
        intro answer member
        rw [List.mem_singleton.mp member]
        exact (setResponseForError_spec malformed).2
      next => contradiction
  | some id =>
      dsimp only at acted
      cases outcome : input.outcome with
      | throws =>
          rw [outcome] at acted
          contradiction
      | returns status respStatus result =>
          rw [outcome] at acted sets
          dsimp only at acted
          split at acted
          next =>
            obtain ⟨_, rfl⟩ := Prod.mk.inj (Except.ok.inj acted)
            exact fun answer member => absurd member List.not_mem_nil
          next ends =>
            obtain ⟨_, rfl⟩ := Prod.mk.inj (Except.ok.inj acted)
            intro answer member
            rw [List.mem_singleton.mp member]
            exact sets ends

/-- The results of a request are set. -/
theorem actOnAll_setsResults {hdr : Header} {acts : Nat → ActInput} {batch : List (Value × Nat)}
    {answers results : List Answer} {fault : Option (Value × Fault)}
    (sets : ∀ entry ∈ batch, (acts entry.2).outcome.SetsResult)
    (areSet : ∀ answer ∈ answers, answer.result.result.isSome = true)
    (acted : actOnAll env hdr acts batch worker answers = (next, results, fault)) :
    ∀ answer ∈ results, answer.result.result.isSome = true := by
  induction batch generalizing worker answers with
  | nil =>
      simp only [actOnAll, Prod.mk.injEq] at acted
      obtain ⟨_, rfl, _⟩ := acted
      exact areSet
  | cons head rest ih =>
      rw [actOnAll] at acted
      split at acted
      next turned answer isTurned =>
        refine ih (fun entry member => sets entry (List.mem_cons_of_mem _ member)) ?_ acted
        intro other member
        cases List.mem_append.mp member with
        | inl old => exact areSet other old
        | inr new => exact actOn_setsResult (sets head List.mem_cons_self) isTurned other new
      next =>
        simp only [Prod.mk.injEq] at acted
        obtain ⟨_, rfl, _⟩ := acted
        exact areSet

theorem execute_setsResults {input : ServeInput} {mstr : ByteString} {hdr : Header}
    {answers : List Answer} (sets : ReadSetsResults input.acts (readRequest env.library mstr))
    (executed : worker.execute env input mstr = some (next, hdr, answers)) :
    ∀ answer ∈ answers, answer.result.result.isSome = true := by
  have all {actions : List Value} (reads : readRequest env.library mstr = .ok (hdr, actions)) :
      ∀ entry ∈ actions.zipIdx, (input.acts entry.2).outcome.SetsResult := by
    rw [reads] at sets
    rintro ⟨action, position⟩ member
    obtain ⟨_, inside, _⟩ := List.mem_zipIdx member
    exact sets position (by omega)
  cases execute_cases executed with
  | unread _ malformed =>
      intro answer member
      rw [List.mem_singleton.mp member]
      exact (setResponseForError_spec malformed).2
  | acted reads acted => exact actOnAll_setsResults (all reads) (by simp) acted
  | failed reads acted malformed =>
      intro answer member
      cases List.mem_append.mp member with
      | inl old => exact actOnAll_setsResults (all reads) (by simp) acted answer old
      | inr new =>
          rw [List.mem_singleton.mp new]
          exact (setResponseForError_spec malformed).2

/-! ## One request -/

/-- The loop over the actions of a request makes no action: results are for actions of the
request, and what it postpones is one of them. -/
theorem actOnAll_covers {hdr : Header} {acts : Nat → ActInput} {batch : List (Value × Nat)}
    {answers results : List Answer} {fault : Option (Value × Fault)}
    (readsBack : ReadsBack env worker.postponedActions)
    (named : ∀ answer ∈ answers, answer.Names env)
    (acted : actOnAll env hdr acts batch worker answers = (next, results, fault)) :
    (Answer.asked worker.replyTo hdr results + next.pending +
        ↑(fault.toList.map fun entry => (⟨worker.replyTo, hdr, entry.1⟩ : Asked)) ≤
      Answer.asked worker.replyTo hdr answers + worker.pending +
        ↑(batch.map fun entry => (⟨worker.replyTo, hdr, entry.1⟩ : Asked))) ∧
      ReadsBack env next.postponedActions ∧ ∀ answer ∈ results, answer.Names env := by
  induction batch generalizing worker answers with
  | nil =>
      simp only [actOnAll, Prod.mk.injEq] at acted
      obtain ⟨rfl, rfl, rfl⟩ := acted
      exact ⟨le_rfl, readsBack, named⟩
  | cons head rest ih =>
      have spec := @actOn_spec env worker hdr (acts head.2) head.1
      rw [actOnAll] at acted
      rw [List.map_cons, ← Multiset.cons_coe, ← Multiset.singleton_add]
      cases called : postponedId env (acts head.2) head.1 with
      | error raised =>
          rw [called] at spec
          simp only [spec, Prod.mk.injEq] at acted
          obtain ⟨rfl, rfl, rfl⟩ := acted
          refine ⟨?_, readsBack, named⟩
          gcongr
          exact Multiset.le_add_right _ _
      | ok postponed =>
          rw [called] at spec
          obtain ⟨turned, answer, isTurned, effect⟩ := spec
          rw [isTurned] at acted
          cases effect with
          | @answered result names =>
              have all : ∀ other ∈ answers ++ [⟨some head.1, result⟩], other.Names env :=
                fun other member => (List.mem_append.mp member).elim (named other)
                  fun last => List.mem_singleton.mp last ▸ names
              obtain ⟨covers, others⟩ := ih readsBack all acted
              refine ⟨covers.trans (le_of_eq ?_), others⟩
              rw [Answer.asked_append, Answer.asked_singleton]
              ac_rfl
          | postponed pa action replyTo header reads =>
              obtain ⟨covers, others⟩ := ih (readsBack.add_any (action ▸ reads))
                (by simpa using named) acted
              refine ⟨covers.trans ?_, others⟩
              have waits : pending { worker with
                  postponedActions := (worker.postponedActions.add pa).1 } ≤
                    worker.pending + {⟨worker.replyTo, hdr, head.1⟩} := by
                rw [pending, pending, PostponedActionsQueue.actions_add]
                split
                · exact Multiset.le_add_right _ _
                · rw [Multiset.map_cons, ← Multiset.singleton_add, add_comm, PostponedAction.asked,
                    action, replyTo, header]
              rw [List.append_nil, ← add_assoc, add_assoc _ worker.pending]
              gcongr

/-- A request that is executed makes no action. -/
theorem execute_covers {input : ServeInput} {request : Zmsg} {executed : MessageWorker}
    {hdr : Header} {answers : List Answer} (readsBack : ReadsBack env worker.postponedActions)
    (isExecuted : worker.execute env input (cStr (request.body.getD [])) =
      some (executed, hdr, answers)) :
    Answer.asked worker.replyTo hdr answers + executed.pending ≤
        worker.pending + askedBy env.library worker.replyTo request ∧
      ReadsBack env executed.postponedActions ∧ ∀ answer ∈ answers, answer.Names env := by
  have batch (hdr : Header) (actions : List Value) :
      actions.zipIdx.map (fun entry => (⟨worker.replyTo, hdr, entry.1⟩ : Asked)) =
        actions.map fun action : Value => (⟨worker.replyTo, hdr, action⟩ : Asked) := by
    conv_rhs => rw [← List.zipIdx_map_fst 0 actions, List.map_map]
    rfl
  have noAnswers (hdr : Header) : Answer.asked worker.replyTo hdr [] = 0 := rfl
  cases execute_cases isExecuted with
  | unread =>
      have nothing (result : ResultMsg) :
          Answer.asked worker.replyTo .new [⟨none, result⟩] = 0 := rfl
      rw [nothing, zero_add]
      refine ⟨Multiset.le_add_right _ _, readsBack, fun answer member => ?_⟩
      rw [List.mem_singleton.mp member]
      exact fun _ asks => by cases asks
  | acted reads acted =>
      rw [askedBy_of_read reads]
      obtain ⟨covers, stillReads, named⟩ := actOnAll_covers readsBack (by simp) acted
      rw [batch, noAnswers, zero_add] at covers
      exact ⟨by simpa using covers, stillReads, named⟩
  | failed reads acted malformed =>
      rw [askedBy_of_read reads]
      obtain ⟨covers, stillReads, named⟩ := actOnAll_covers readsBack (by simp) acted
      rw [batch, noAnswers, zero_add] at covers
      refine ⟨le_trans (le_of_eq ?_) covers, stillReads, fun answer member => ?_⟩
      · rw [Answer.asked_append, Answer.asked_singleton]
        simp only [Option.toList_some, List.map_cons, List.map_nil, Multiset.coe_singleton]
        ac_rfl
      · cases List.mem_append.mp member with
        | inl old => exact named answer old
        | inr new =>
            rw [List.mem_singleton.mp new]
            rintro _ ⟨⟩
            exact .inr (.inr (malformedResult_id malformed))

/-- What a request that is served sends: its results, if there are any and a client for
them. A reply that waits for a client is none of this request. -/
theorem serve_sent {input : ServeInput} {request : Zmsg}
    (sets : ReadSetsResults input.acts
      (readRequest env.library (cStr (request.body.getD []))))
    (served : worker.serve env input request = some next) :
    ∃ executed hdr answers, worker.execute env input (cStr (request.body.getD [])) =
        some (executed, hdr, answers) ∧
      next.identity = worker.identity ∧ next.postponedActions = executed.postponedActions ∧
      (∃ now, next.phase = .handling now) ∧ ∃ sents, next.journal = worker.journal ++ sents ∧
        if answers = [] ∨ worker.replyTo = [] then sents = [] else
          ∃ sent, sents = [sent] ∧ sent.identity = worker.identity ∧
            sent.answered = some ⟨worker.replyTo, hdr, answers⟩ ∧
            sent.Carries env ⟨worker.replyTo, hdr, answers⟩ := by
  simp only [serve, Option.bind_eq_bind, Option.bind_eq_some_iff, Prod.exists, Option.pure_def,
    Option.some.injEq] at served
  obtain ⟨body, isBody, executed, hdr, answers, isExecuted, replied, sent, rfl⟩ := served
  rw [isBody, Option.getD_some] at sets ⊢
  refine ⟨executed, hdr, answers, isExecuted, ?_⟩
  have areSet := execute_setsResults sets isExecuted
  obtain ⟨queue, rfl⟩ := execute_queue isExecuted
  have spec := sendReply_spec sent
  rw [buildReply] at spec
  by_cases silent : answers = []
  · simp only [silent, ne_eq, not_true_eq_false, if_false, true_or, if_true] at spec ⊢
    cases waiting : worker.reply with
    | none =>
        simp only [waiting] at spec
        obtain ⟨_, rfl⟩ := spec
        exact ⟨rfl, rfl, ⟨_, rfl⟩, [], (List.append_nil _).symm, rfl⟩
    | some reply =>
        simp only [waiting] at spec
        obtain rfl := spec
        exact ⟨rfl, rfl, ⟨_, rfl⟩, [], (List.append_nil _).symm, rfl⟩
  · obtain ⟨text, printed⟩ := Option.isSome_iff_exists.mp
      (@ResMsg.print_isSome env.library none hdr (answers.map Answer.result)
        (by simpa using areSet))
    simp only [ne_eq, silent, not_false_eq_true, if_true, printed] at spec
    by_cases unnamed : worker.replyTo = []
    · rw [if_pos unnamed] at spec
      obtain rfl := spec
      refine ⟨rfl, rfl, ⟨_, rfl⟩, [], (List.append_nil _).symm, ?_⟩
      rw [if_pos (Or.inr unnamed)]
    · rw [if_neg unnamed] at spec
      obtain rfl := spec
      refine ⟨rfl, rfl, ⟨_, rfl⟩, [_], rfl, ?_⟩
      rw [if_neg (not_or.mpr ⟨silent, unnamed⟩)]
      exact ⟨_, rfl, rfl, rfl, text, printed, rfl⟩

/-! ## Steps -/

/-- In a phase, the calls for the actions of a request set their results. -/
def SetsResultsIn (env : WorkerEnvironment) : WorkerEvent → Phase → Prop
  | .serve input, .serving request =>
      ReadSetsResults input.acts (readRequest env.library (cStr (request.body.getD [])))
  | _, _ => True

/-- The calls in a step set their results. -/
def SetsResults (env : WorkerEnvironment) (worker : MessageWorker) (event : WorkerEvent) :
    Prop :=
  SetsResultsIn env event worker.phase

instance decidableSetsResultsIn (env : WorkerEnvironment) (event : WorkerEvent)
    (phase : Phase) : Decidable (SetsResultsIn env event phase) :=
  match event, phase with
  | .serve _, .serving _ => inferInstanceAs (Decidable (ReadSetsResults _ _))
  | .serve _, .handling _ | .serve _, .polling | .retry _, _ | .poll _, _ =>
      inferInstanceAs (Decidable True)

instance (env : WorkerEnvironment) (worker : MessageWorker) (event : WorkerEvent) :
    Decidable (worker.SetsResults env event) :=
  inferInstanceAs (Decidable (SetsResultsIn env event worker.phase))

/-- What holds of a worker between its steps, in every run. -/
structure Steady (env : WorkerEnvironment) (worker : MessageWorker) : Prop where
  readsBack : ReadsBack env worker.postponedActions
  nulFree : ∀ request, worker.phase = .serving request → 0 ∉ worker.replyTo
  postponedFor : ∀ pa ∈ worker.postponedActions.actions, 0 ∉ pa.replyTo

/-- A message is what it is noted for: results for a client, or a command without any. -/
def Sent.Bears (env : WorkerEnvironment) (sent : Sent) : Prop :=
  match sent.answered with
  | some answered => sent.Carries env answered ∧ 0 ∉ answered.client ∧
      ∀ answer ∈ answered.answers, answer.Names env
  | none => ∃ command ∈ [mdpwReady, mdpwHeartbeat], sent.msg = brokerMessage command [] none

/-- What becomes in a step of the actions that the worker holds and takes: they go out with
the messages, stay, or are lost. -/
structure Conserves (env : WorkerEnvironment) (worker : MessageWorker) (event : WorkerEvent)
    (next : MessageWorker) (sents : List Sent) (lost : Multiset Asked) : Prop where
  journal : next.journal = worker.journal ++ sents
  identity : ∀ sent ∈ sents, sent.identity = next.identity
  bears : ∀ sent ∈ sents, Sent.Bears env sent
  total : (sents.map Sent.asked).sum + next.pending + next.inService env.library + lost =
    worker.pending + worker.inService env.library + event.asked env.library

theorem Steady.retried {top : PostponedAction} {input : ActInput} (steady : worker.Steady env)
    (isTop : top ∈ worker.postponedActions.actions) (retried : Retried env worker top next) :
    next.Steady env ∧ ∃ sents, Conserves env worker (.retry input) next sents 0 := by
  have reads := steady.readsBack top isTop
  cases retried with
  | again now =>
      obtain ⟨rest, before, after⟩ := PostponedActionsQueue.actions_decrement now isTop
      refine ⟨⟨?_, steady.nulFree, ?_⟩, [], (List.append_nil _).symm,
        by simp, by simp, ?_⟩
      · exact PostponedActionsQueue.forall_decrement now isTop id steady.readsBack
      · exact PostponedActionsQueue.forall_decrement now isTop id steady.postponedFor
      · have same : Multiset.map PostponedAction.asked
            (worker.postponedActions.decrementRunsAndUpdateExpiration now top.id).1.actions =
              worker.pending := by
          rw [pending, before, after, Multiset.map_cons, Multiset.map_cons]
          rfl
        change 0 + _ + worker.inService env.library + 0 = _ + worker.inService env.library + 0
        rw [zero_add, ← same]
        rfl
  | @answered sent result identity isAnswered carries named =>
      have before := PostponedActionsQueue.actions_removeById isTop
      have asks : sent.asked = {top.asked} := by
        rw [Sent.asked, isAnswered]
        exact Answer.asked_singleton _ _ _ _
      refine ⟨⟨?_, steady.nulFree, ?_⟩, [sent], rfl, ?_, ?_, ?_⟩
      · exact fun pa isIn => steady.readsBack pa (PostponedActionsQueue.mem_removeById isIn)
      · exact fun pa isIn => steady.postponedFor pa (PostponedActionsQueue.mem_removeById isIn)
      · exact fun other member => List.mem_singleton.mp member ▸ identity
      · intro other member
        rw [List.mem_singleton.mp member, Sent.Bears, isAnswered]
        refine ⟨carries, steady.postponedFor top isTop, fun answer isAnswer => ?_⟩
        rw [List.mem_singleton.mp isAnswer]
        rintro _ ⟨⟩
        exact .inl (named ▸ reads)
      · rw [List.map_singleton, List.sum_singleton, asks, pending, pending, before,
          Multiset.map_cons, ← Multiset.singleton_add, WorkerEvent.asked]
        rfl

theorem Steady.polled {input : PollInput} (steady : worker.Steady env)
    (polling : worker.phase = .polling) (polled : Polled worker input next) :
    next.Steady env ∧ ∃ sents, Conserves env worker (.poll input) next sents 0 := by
  have notServing : worker.inService env.library = 0 := by rw [inService, polling]
  have waits : next.pending = worker.pending := by
    rw [pending, polled.postponedActions, pending]
  obtain ⟨postponedActions, _, _, request⟩ := polled
  have readsBack : ReadsBack env next.postponedActions := postponedActions ▸ steady.readsBack
  have postponedFor : ∀ pa ∈ next.postponedActions.actions, 0 ∉ pa.replyTo :=
    postponedActions ▸ steady.postponedFor
  cases isRequest : input.frames.bind requestOf with
  | some found =>
      rw [isRequest] at request
      obtain ⟨isClient, phase, _, journal⟩ := request
      obtain ⟨frames, _, read⟩ := Option.bind_eq_some_iff.mp isRequest
      have nulFree : 0 ∉ next.replyTo := isClient ▸ requestOf_nulFree read
      refine ⟨⟨readsBack, fun _ _ => nulFree, postponedFor⟩,
        [], by rw [journal, List.append_nil], by simp, by simp, ?_⟩
      have serves : next.inService env.library = (WorkerEvent.poll input).asked env.library := by
        rw [inService, phase, isClient, WorkerEvent.asked, isRequest]
      rw [List.map_nil, List.sum_nil, serves, waits, notServing, zero_add, add_zero, add_zero]
  | none =>
      rw [isRequest] at request
      obtain ⟨⟨now, phase⟩, sends⟩ := request
      have rests : next.inService env.library = 0 := by rw [inService, phase]
      have nothing : (WorkerEvent.poll input).asked env.library = 0 := by
        rw [WorkerEvent.asked, isRequest]
      have steady : next.Steady env := ⟨readsBack, by rw [phase]; simp, postponedFor⟩
      refine ⟨steady, ?_⟩
      have bears {identity : ByteString} {command : ByteString}
          (isCommand : command ∈ [mdpwReady, mdpwHeartbeat]) :
          Sent.Bears env (bare identity command) := ⟨command, isCommand, rfl⟩
      obtain ⟨sents, journal, areBare⟩ : ∃ sents, next.journal = worker.journal ++ sents ∧
          ∀ sent ∈ sents, ∃ command ∈ [mdpwReady, mdpwHeartbeat],
            sent = bare next.identity command := by
        cases sends with
        | stays identity beats journal quiet =>
            refine ⟨beats, journal, fun sent member => ⟨mdpwHeartbeat, by simp, ?_⟩⟩
            rw [identity]
            exact quiet sent member
        | reconnects identity beats journal quiet =>
            refine ⟨_, journal, fun sent member => ?_⟩
            rw [identity]
            cases List.mem_cons.mp member with
            | inl ready => exact ⟨mdpwReady, by simp, ready⟩
            | inr beat => exact ⟨mdpwHeartbeat, by simp, quiet sent beat⟩
      refine ⟨sents, journal, ?_, ?_, ?_⟩
      · intro sent member
        obtain ⟨_, _, rfl⟩ := areBare sent member
        rfl
      · intro sent member
        obtain ⟨command, isCommand, rfl⟩ := areBare sent member
        exact bears isCommand
      · have none : (sents.map Sent.asked).sum = 0 := by
          refine List.sum_eq_zero fun counted member => ?_
          obtain ⟨sent, isIn, rfl⟩ := List.mem_map.mp member
          obtain ⟨_, _, rfl⟩ := areBare sent isIn
          rfl
        rw [none, waits, rests, notServing, nothing, zero_add]

theorem Steady.served {input : ServeInput} {request : Zmsg} (steady : worker.Steady env)
    (serving : worker.phase = .serving request) (sets : worker.SetsResults env (.serve input))
    (served : worker.serve env input request = some next) :
    next.Steady env ∧ ∃ sents lost, Conserves env worker (.serve input) next sents lost ∧
      (worker.Accountable env (.serve input) → lost = 0) := by
  rw [SetsResults, serving] at sets
  obtain ⟨executed, hdr, answers, isExecuted, identity, postponedActions, ⟨now, phase⟩, sents,
    journal, isSent⟩ := serve_sent sets served
  obtain ⟨covers, readsBack, named⟩ := execute_covers steady.readsBack isExecuted
  have postpones := execute_postpones isExecuted
  have nulFree := steady.nulFree request serving
  have rests : next.inService env.library = 0 := by rw [inService, phase]
  have serves : worker.inService env.library = askedBy env.library worker.replyTo request := by
    rw [inService, serving]
  have waits : next.pending = executed.pending := by
    rw [pending, postponedActions, pending]
  have stays : next.Steady env := by
    refine ⟨postponedActions ▸ readsBack, by rw [phase]; simp, ?_⟩
    rw [postponedActions]
    intro pa member
    cases postpones pa member with
    | inl old => exact steady.postponedFor pa old
    | inr isClient => exact isClient ▸ nulFree
  have silent : Answer.asked worker.replyTo hdr [] = 0 := rfl
  -- what goes out is what has a result, unless nobody is there to get it
  obtain ⟨identities, bears, unsent, asks, unnamed⟩ :
      (∀ sent ∈ sents, sent.identity = next.identity) ∧ (∀ sent ∈ sents, Sent.Bears env sent) ∧
      ∃ unsent, (sents.map Sent.asked).sum + unsent = Answer.asked worker.replyTo hdr answers ∧
        (worker.replyTo ≠ [] → unsent = 0) := by
    split at isSent
    next either =>
      obtain rfl := isSent
      refine ⟨by simp, by simp, _, zero_add _, fun isNamed => ?_⟩
      rw [either.resolve_right isNamed, silent]
    next =>
      obtain ⟨sent, rfl, sameIdentity, isAnswered, carries⟩ := isSent
      refine ⟨?_, ?_, 0, ?_, fun _ => rfl⟩
      · exact fun other member => List.mem_singleton.mp member ▸ sameIdentity.trans identity.symm
      · intro other member
        rw [List.mem_singleton.mp member, Sent.Bears, isAnswered]
        exact ⟨carries, nulFree, named⟩
      · rw [List.map_singleton, List.sum_singleton, Sent.asked, isAnswered, add_zero]
  obtain ⟨skipped, total⟩ := Multiset.le_iff_exists_add.mp covers
  refine ⟨stays, sents, skipped + unsent, ⟨journal, identities, bears, ?_⟩, ?_⟩
  · rw [rests, serves, waits, WorkerEvent.asked, add_zero, add_zero, total, ← asks]
    ac_rfl
  · intro accountable
    have whole := (execute_accounts serving accountable steady.readsBack isExecuted).1
    rw [serves, total] at whole
    rw [Accountable, serving] at accountable
    rw [unnamed accountable.1, left_eq_add.mp whole, add_zero]

/-- In every step, the actions that a worker holds and takes go out, stay or are lost; none
is lost where the request that is served can be accounted for. -/
theorem Steady.step {event : WorkerEvent} (steady : worker.Steady env)
    (sets : worker.SetsResults env event) (stepped : worker.step env event = some next) :
    next.Steady env ∧ ∃ sents lost, Conserves env worker event next sents lost ∧
      (worker.Accountable env event → lost = 0) := by
  rcases step_cases stepped with ⟨input, now, rfl, phase, handled⟩ |
    ⟨input, rfl, polling, polled⟩ | ⟨input, request, rfl, serving, served⟩
  · rcases handlePostponedAction_cases handled with rfl | ⟨top, isTop, retried⟩
    · refine ⟨⟨steady.readsBack, by simp, steady.postponedFor⟩, [], 0,
        ⟨(List.append_nil _).symm, by simp, by simp, ?_⟩, fun _ => rfl⟩
      have idle : worker.inService env.library = 0 := by rw [inService, phase]
      rw [idle, WorkerEvent.asked, List.map_nil, List.sum_nil, zero_add]
      rfl
    · obtain ⟨stays, sents, conserves⟩ :=
        steady.retried isTop (retry_spec (steady.readsBack top isTop) retried)
      exact ⟨stays, sents, 0, conserves, fun _ => rfl⟩
  · obtain ⟨stays, sents, conserves⟩ := steady.polled polling (poll_spec polled)
    exact ⟨stays, sents, 0, conserves, fun _ => rfl⟩
  · exact steady.served serving sets served

/-- A worker starts with nothing, and sends a `READY`. -/
theorem steady_start {identity : ByteString} {connect handle : Int}
    (started : start env identity connect handle = some worker) :
    worker.Steady env ∧ worker.pending = 0 ∧ worker.inService env.library = 0 ∧
      worker.identity = identity ∧ worker.journal = [bare identity mdpwReady] := by
  obtain ⟨heartbeatAt, now, rfl⟩ := start_spec started
  refine ⟨⟨?_, by simp, ?_⟩, rfl, rfl, rfl, rfl⟩
  · exact fun pa isIn => absurd isIn (Multiset.notMem_zero pa)
  · exact fun pa isIn => absurd isIn (Multiset.notMem_zero pa)

end MessageWorker

end Cdcm.Backend
