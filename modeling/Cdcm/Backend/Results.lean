import Cdcm.Backend.WorkerEffects
import Cdcm.Lib.Machine

/-!
# Where results come from

Every result that a worker sends was made by one of four pieces of code: behind a call of
`act`, for an action without a plugin, for the action at which an exception ended a
request, or for a request that cannot be read.  Which calls of `act` there are is left
open by a condition on actions and the outcomes of their calls.
-/

namespace Cdcm.Backend

open Json Protocol Zmq Machine

/-- Reading the message of an action raises an exception, or its call does. -/
def Raises (env : WorkerEnvironment) (action : Value) (outcome : ActOutcome) : Prop :=
  readId env action = .error .exception ∨
    (∃ id, readId env action = .ok (some id)) ∧ outcome = .throws

/-- A result, by the code that has made it. -/
inductive Produced (env : WorkerEnvironment) (admits : Value → ActOutcome → Prop) :
    Answer → Prop where
  | acted {action : Value} {id : ByteString} {status : ActionStatus} {respStatus : RespStatus}
      {result : Option Value} (reads : readId env action = .ok (some id))
      (admitted : admits action (.returns status respStatus result)) :
      Produced env admits ⟨some action, ⟨id, respStatus, result⟩⟩
  | unknown {action : Value} {result : ResultMsg} (reads : readId env action = .ok none)
      (malformed : malformedResult (idOrUnknown action) = some result) :
      Produced env admits ⟨some action, result⟩
  | failed {action : Value} {result : ResultMsg} {outcome : ActOutcome}
      (admitted : admits action outcome) (raises : Raises env action outcome)
      (malformed : malformedResult (text "unknown") = some result) :
      Produced env admits ⟨some action, result⟩
  | unreadable {result : ResultMsg} (malformed : malformedResult (text "unknown") = some result) :
      Produced env admits ⟨none, result⟩

namespace MessageWorker

variable {env : WorkerEnvironment} {admits : Value → ActOutcome → Prop}
  {worker next : MessageWorker}

/-- The results that a worker has sent or is about to send. -/
structure AllProduced (env : WorkerEnvironment) (admits : Value → ActOutcome → Prop)
    (worker : MessageWorker) : Prop where
  sent : ∀ sent ∈ worker.journal, ∀ answered ∈ sent.answered,
    ∀ answer ∈ answered.answers, Produced env admits answer
  reply : ∀ reply ∈ worker.reply, ∀ answer ∈ reply.answers, Produced env admits answer

/-- The calls of `act` in a step are as the condition has it. -/
def Admitted (env : WorkerEnvironment) (admits : Value → ActOutcome → Prop)
    (worker : MessageWorker) : WorkerEvent → Prop
  | .retry input =>
      ∀ top ∈ worker.postponedActions.top, admits top.actionMessage input.outcome
  | .serve input =>
      ∀ request hdr actions, worker.phase = .serving request →
        readRequest env.library (cStr (request.body.getD [])) = .ok (hdr, actions) →
          ∀ entry ∈ actions.zipIdx, admits entry.1 (input.acts entry.2).outcome
  | .poll _ => True

/-- The result of one action of a request, or the fault at it. -/
theorem actOn_produced {hdr : Header} {input : ActInput} {action : Value}
    (admitted : admits action input.outcome) :
    (∀ answers, worker.actOn env hdr input action = .ok (next, answers) →
        ∀ answer ∈ answers, Produced env admits answer) ∧
      (worker.actOn env hdr input action = .error .exception →
        Raises env action input.outcome) := by
  rw [actOn, Raises]
  cases reads : readId env action with
  | error fault =>
      refine ⟨fun _ acted => ?_, fun raised => .inl ?_⟩
      · cases acted
      · exact congrArg Except.error (Except.error.inj raised)
  | ok found =>
      simp only [bind, Except.bind]
      cases found with
      | none =>
          obtain ⟨result, malformed⟩ :=
            Option.isSome_iff_exists.mp (malformedResult_isSome (idOrUnknown action))
          dsimp only
          rw [malformed]
          refine ⟨fun answers acted answer member => ?_, fun raised => by cases raised⟩
          obtain ⟨-, rfl⟩ := Prod.mk.inj (Except.ok.inj acted)
          rw [List.mem_singleton.mp member]
          exact .unknown reads malformed
      | some id =>
          dsimp only
          cases outcome : input.outcome with
          | throws =>
              refine ⟨fun _ acted => ?_, fun _ => .inr ⟨⟨id, rfl⟩, rfl⟩⟩
              cases acted
          | returns status respStatus result =>
              rw [outcome] at admitted
              dsimp only
              split
              next =>
                refine ⟨fun answers acted answer member => ?_, fun raised => by cases raised⟩
                obtain ⟨-, rfl⟩ := Prod.mk.inj (Except.ok.inj acted)
                contradiction
              next =>
                refine ⟨fun answers acted answer member => ?_, fun raised => by cases raised⟩
                obtain ⟨-, rfl⟩ := Prod.mk.inj (Except.ok.inj acted)
                rw [List.mem_singleton.mp member]
                exact .acted reads admitted

/-- The results of the loop over the actions, up to the fault. -/
theorem actOnAll_produced {hdr : Header} {acts : Nat → ActInput} {batch : List (Value × Nat)}
    {answers results : List Answer} {fault : Option (Value × Fault)}
    (admitted : ∀ entry ∈ batch, admits entry.1 (acts entry.2).outcome)
    (before : ∀ answer ∈ answers, Produced env admits answer)
    (acted : actOnAll env hdr acts batch worker answers = (next, results, fault)) :
    (∀ answer ∈ results, Produced env admits answer) ∧
      ∀ action, fault = some (action, .exception) →
        ∃ outcome, admits action outcome ∧ Raises env action outcome := by
  induction batch generalizing worker answers with
  | nil =>
      simp only [actOnAll, Prod.mk.injEq] at acted
      obtain ⟨-, rfl, rfl⟩ := acted
      exact ⟨before, fun _ raised => by cases raised⟩
  | cons head rest ih =>
      have headAdmitted := admitted head List.mem_cons_self
      rw [actOnAll] at acted
      cases turned : worker.actOn env hdr (acts head.2) head.1 with
      | ok turn =>
          simp only [turned] at acted
          apply ih (fun entry member => admitted entry (List.mem_cons_of_mem head member)) _ acted
          intro answer member
          cases List.mem_append.mp member with
          | inl old => exact before answer old
          | inr new => exact (actOn_produced headAdmitted).1 turn.2 turned answer new
      | error raised =>
          simp only [turned, Prod.mk.injEq] at acted
          obtain ⟨-, rfl, rfl⟩ := acted
          refine ⟨before, fun action isFault => ?_⟩
          obtain ⟨rfl, rfl⟩ := Prod.mk.inj (Option.some.inj isFault)
          exact ⟨_, headAdmitted,
            (@actOn_produced _ _ _ worker _ _ _ headAdmitted).2 turned⟩

/-- The results of a request. -/
theorem execute_produced {input : ServeInput} {mstr : ByteString} {hdr : Header}
    {answers : List Answer}
    (admitted : ∀ hdr actions, readRequest env.library mstr = .ok (hdr, actions) →
      ∀ entry ∈ actions.zipIdx, admits entry.1 (input.acts entry.2).outcome)
    (executed : worker.execute env input mstr = some (next, hdr, answers)) :
    ∀ answer ∈ answers, Produced env admits answer := by
  cases execute_cases executed with
  | unread _ malformed =>
      intro answer member
      rw [List.mem_singleton.mp member]
      exact .unreadable malformed
  | acted reads acted => exact (actOnAll_produced (admitted _ _ reads) (by simp) acted).1
  | failed reads acted malformed =>
      obtain ⟨all, faults⟩ := actOnAll_produced (admitted _ _ reads) (by simp) acted
      intro answer member
      cases List.mem_append.mp member with
      | inl old => exact all answer old
      | inr new =>
          obtain ⟨outcome, outcomeAdmitted, raises⟩ := faults _ rfl
          rw [List.mem_singleton.mp new]
          exact .failed outcomeAdmitted raises malformed

/-- A message whose results are produced is sent. -/
theorem AllProduced.append {entry : Sent} (produced : AllProduced env admits worker)
    (journal : next.journal = worker.journal ++ [entry])
    (results : ∀ answered ∈ entry.answered, ∀ answer ∈ answered.answers,
      Produced env admits answer)
    (reply : ∀ reply ∈ next.reply, reply ∈ worker.reply) : AllProduced env admits next := by
  constructor
  · intro sent member answered isAnswered
    rw [journal] at member
    cases List.mem_append.mp member with
    | inl old => exact produced.sent sent old answered isAnswered
    | inr new =>
        rw [List.mem_singleton.mp new] at isAnswered
        exact results answered isAnswered
  · exact fun kept isKept => produced.reply kept (reply kept isKept)

/-- The pending reply goes out, or stays. -/
theorem AllProduced.sendReply (produced : AllProduced env admits worker)
    (sent : worker.sendReply = some next) : AllProduced env admits next := by
  have spec := sendReply_spec sent
  cases pending : worker.reply with
  | none =>
      simp only [pending] at spec
      rw [spec.2]
      exact ⟨produced.sent, pending ▸ produced.reply⟩
  | some reply =>
      simp only [pending] at spec
      rw [spec]
      split
      next => exact ⟨produced.sent, pending ▸ produced.reply⟩
      next =>
        apply produced.append rfl
        · rintro _ ⟨rfl⟩
          exact produced.reply reply (Option.mem_def.mpr pending)
        · exact fun sent none => absurd none (Option.not_mem_none sent)

/-- Messages without results change nothing. -/
theorem AllProduced.of_bare {sent : List Sent} (produced : AllProduced env admits worker)
    (journal : next.journal = worker.journal ++ sent)
    (areBare : ∀ entry ∈ sent, entry.answered = none) (reply : next.reply = worker.reply) :
    AllProduced env admits next := by
  constructor
  · intro entry member answered isAnswered
    rw [journal] at member
    cases List.mem_append.mp member with
    | inl old => exact produced.sent entry old answered isAnswered
    | inr new =>
        rw [areBare entry new] at isAnswered
        contradiction
  · rw [reply]
    exact produced.reply

theorem AllProduced.polled {input : PollInput} (produced : AllProduced env admits worker)
    (polled : Polled worker input next) : AllProduced env admits next := by
  have request := polled.request
  split at request
  next =>
    obtain ⟨-, -, -, journal⟩ := request
    apply @AllProduced.of_bare _ _ _ _ [] produced _ nofun polled.reply
    rw [journal, List.append_nil]
  next =>
    obtain ⟨-, sent⟩ := request
    cases sent with
    | stays _ beats journal quiet =>
        apply produced.of_bare journal _ polled.reply
        intro entry member
        rw [quiet entry member, bare]
    | reconnects _ beats journal quiet =>
        apply produced.of_bare journal _ polled.reply
        intro entry member
        cases List.mem_cons.mp member with
        | inl ready => rw [ready, bare]
        | inr beat => rw [quiet entry beat, bare]

theorem AllProduced.served {input : ServeInput} {request : Zmsg}
    (produced : AllProduced env admits worker) (serving : worker.phase = .serving request)
    (admitted : worker.Admitted env admits (.serve input))
    (served : worker.serve env input request = some next) : AllProduced env admits next := by
  simp only [serve, Option.bind_eq_bind, Option.bind_eq_some_iff, Prod.exists, Option.pure_def,
    Option.some.injEq] at served
  obtain ⟨body, isBody, executed, hdr, answers, isExecuted, replied, sent, rfl⟩ := served
  have isRead : request.body.getD [] = body := by rw [isBody, Option.getD_some]
  have results : ∀ answer ∈ answers, Produced env admits answer := by
    apply execute_produced _ isExecuted
    rw [← isRead]
    exact fun hdr actions reads => admitted request hdr actions serving reads
  obtain ⟨queue, rfl⟩ := execute_queue isExecuted
  have built : AllProduced env admits
      (buildReply env { worker with postponedActions := queue } hdr answers) := by
    rw [buildReply]
    split
    · split
      · refine ⟨produced.sent, fun reply isReply => ?_⟩
        obtain rfl := Option.mem_some.mp isReply
        exact results
      · exact ⟨produced.sent, produced.reply⟩
    · exact ⟨produced.sent, produced.reply⟩
  have after := built.sendReply sent
  exact ⟨after.sent, after.reply⟩

theorem AllProduced.retried {input : ActInput} {top : PostponedAction}
    (produced : AllProduced env admits worker)
    (admitted : admits top.actionMessage input.outcome)
    (retried : worker.retry env input top = some next) : AllProduced env admits next := by
  rw [retry] at retried
  cases reads : readId env top.actionMessage with
  | error fault => simp [reads, Except.toOption] at retried
  | ok found =>
      simp only [reads, Except.toOption, Option.bind_eq_bind, Option.bind_some] at retried
      cases found with
      | none =>
          obtain rfl := Option.some.inj retried
          exact produced
      | some id =>
          dsimp only at retried
          cases outcome : input.outcome with
          | throws => simp [outcome] at retried
          | returns status respStatus result =>
              rw [outcome] at retried admitted
              dsimp only at retried
              split at retried
              next =>
                obtain rfl := Option.some.inj retried
                exact ⟨produced.sent, produced.reply⟩
              next =>
                simp only [Option.bind_eq_some_iff, Option.some.injEq] at retried
                obtain ⟨body, -, replied, sent, rfl⟩ := retried
                rw [sendToBroker_spec sent]
                refine produced.append rfl ?_ fun _ kept => kept
                rintro _ ⟨rfl⟩ answer isAnswer
                rw [List.mem_singleton.mp isAnswer]
                exact .acted reads admitted

theorem AllProduced.step {event : WorkerEvent} (produced : AllProduced env admits worker)
    (admitted : worker.Admitted env admits event)
    (stepped : worker.step env event = some next) : AllProduced env admits next := by
  rcases step_cases stepped with ⟨input, now, rfl, -, handled⟩ | ⟨input, rfl, -, polled⟩ |
    ⟨input, request, rfl, serving, served⟩
  · rw [handlePostponedAction] at handled
    split at handled
    next top isTop =>
      split at handled
      next => exact produced.retried (admitted top isTop) handled
      next =>
        obtain rfl := Option.some.inj handled
        exact ⟨produced.sent, produced.reply⟩
    next =>
      obtain rfl := Option.some.inj handled
      exact ⟨produced.sent, produced.reply⟩
  · exact produced.polled (poll_spec polled)
  · exact produced.served serving admitted served

/-- In a run from the start of a worker whose calls of `act` are as the condition has it,
every result that is sent was made by one of the four pieces of code. -/
theorem allProduced_of_run {identity : ByteString} {connect handle : Int}
    {first : MessageWorker} {events : List WorkerEvent}
    (started : start env identity connect handle = some first)
    (run : Run (MessageWorker.step env) (Admitted env admits) first events worker) :
    AllProduced env admits worker := by
  apply run.invariant (AllProduced env admits)
  · obtain ⟨heartbeatAt, now, rfl⟩ := start_spec started
    refine ⟨fun entry member answered isAnswered => ?_, nofun⟩
    rw [List.mem_singleton.mp member] at isAnswered
    contradiction
  · exact fun state event next produced admitted stepped => produced.step admitted stepped

end MessageWorker

end Cdcm.Backend
